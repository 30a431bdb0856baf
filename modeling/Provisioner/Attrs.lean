import Provisioner.Values

/-!
# attrs classes

The attrs fields the parser glue reads: a field's name, default, type annotation, whether
`__init__` takes it, and its parser metadata; a class with its fields in definition order, its
converters, validators and `__attrs_post_init__`; the `__init__` attrs generates; and the
module's `copy_attr`. Converters, validators and `__attrs_post_init__` are Python callables, so a
class carries what they do: the value or the exception of each.
-/

namespace Provisioner

/-- The type annotation of a field, as far as the parser glue reads it: `bool`, `typing.List`,
the string `'json'`, any other class by its `__name__`, or none. -/
inductive AttrType where
  | none
  | bool
  | list
  | json
  | named (n : String)
  deriving DecidableEq

/-- `_attr.default`: `attr.NOTHING`, a value, or `attr.Factory(f)` with the value `f()`
returns. -/
inductive AttrDefault where
  | nothing
  | value (v : PyValue)
  | factory (v : PyValue)
  deriving DecidableEq

def AttrDefault.value? : AttrDefault → Option PyValue
  | .nothing => none
  | .value v | .factory v => some v

/-- `bool(_attr.default)`: `attr.NOTHING` and a factory are plain objects, so true. -/
def AttrDefault.truthy : AttrDefault → Bool
  | .value v => v.truthy
  | _ => true

/-- The dict a field keeps under `METADATA_ARGPARSER`, with the keys the parser glue reads. An
absent key and an empty value read alike where the code tests truth (`action`, `choices`,
`metavar`, `nargs`). `type` names a callable. -/
structure ParserMeta where
  action : Option String := none
  dest : Option String := none
  const : Option PyValue := none
  help : Option String := none
  choices : List String := []
  metavar : Option String := none
  default : Option PyValue := none
  type : Option Nat := none
  nargs : Option String := none
  deriving DecidableEq

/-- `_attr.metadata[METADATA_ARGPARSER]`: the dict itself, or a key path into the CLI spec. -/
inductive ParserMetaSource where
  | inline (m : ParserMeta)
  | cliSpec (path : String)
  deriving DecidableEq

/-- An attrs field. `parser` is `none` when the metadata has no `METADATA_ARGPARSER` key. -/
structure Attribute where
  name : String
  default : AttrDefault := .nothing
  type : AttrType := .none
  init : Bool := true
  parser : Option ParserMetaSource := none
  deriving DecidableEq

/-- `s.lstrip(c)` for one character. -/
def lstripChar (c : Char) (s : String) : String := ⟨s.toList.dropWhile (· = c)⟩

/-- `s.replace(a, b)` for one character by one character. -/
def replaceChar (a b : Char) (s : String) : String := ⟨s.toList.map fun c => if c = a then b else c⟩

theorem lstripChar_of_head {c : Char} {s : String} (h : s.toList.head? ≠ some c) :
    lstripChar c s = s := by
  unfold lstripChar
  cases hs : s.toList with
  | nil => exact String.ext hs.symm
  | cons x xs =>
      have hx : x ≠ c := fun e => h (by rw [hs, e]; rfl)
      rw [List.dropWhile_cons_of_neg (by simpa using hx)]
      exact String.ext hs.symm

theorem replaceChar_of_not_mem {a b : Char} {s : String} (h : a ∉ s.toList) :
    replaceChar a b s = s := by
  apply String.ext
  show s.toList.map (fun c => if c = a then b else c) = s.toList
  conv_rhs => rw [← List.map_id s.toList]
  exact List.map_congr_left fun c hc => if_neg fun (e : c = a) => h (e ▸ hc)

theorem replaceChar_replaceChar (s : String) :
    replaceChar '-' '_' (replaceChar '_' '-' s) = replaceChar '-' '_' s := by
  apply String.ext
  show (s.toList.map _).map _ = s.toList.map _
  rw [List.map_map]
  exact List.map_congr_left fun c _ => by by_cases h₁ : c = '_' <;> by_cases h₂ : c = '-' <;> simp_all

theorem replaceChar_append (a b : Char) (s t : String) :
    replaceChar a b (s ++ t) = replaceChar a b s ++ replaceChar a b t :=
  String.ext (by simp [replaceChar, String.toList, String.data_append])

theorem head_ne_of_not_mem {c : Char} {s : String} (h : c ∉ s.toList) : s.toList.head? ≠ some c :=
  fun e => h (List.mem_of_mem_head? e)

def Attribute.initName (a : Attribute) : String := lstripChar '_' a.name

inductive PrefixAttr where
  | absent
  | none
  | str (s : String)
  deriving DecidableEq

/-- An attrs class: its fields in definition order, its `parser_prefix`, each field's converter
(by field name), each field's validators run on the instance (the exception the first that fails
raises), and `__attrs_post_init__`. Field names are distinct identifiers, so none holds `'-'`;
attrs rejects two `__init__` parameters of one name and a mandatory parameter after one with a
default. -/
structure AttrsClass where
  fields : List Attribute
  parserPrefix : PrefixAttr := .absent
  converter : String → PyValue → Except String PyValue := fun _ v => .ok v
  validator : String → List (String × PyValue) → Option String := fun _ _ => none
  postInit : List (String × PyValue) → Except String (List (String × PyValue)) := .ok
  names_nodup : (fields.map (·.name)).Nodup
  names_ident : ∀ a ∈ fields, '-' ∉ a.name.toList
  init_names_nodup : ((fields.filter (·.init)).map (·.initName)).Nodup
  mandatory_first : (fields.filter (·.init)).Pairwise
    fun a b => a.default ≠ .nothing → b.default ≠ .nothing

inductive InitError where
  | unexpectedKeyword (key : PyValue)
  | multipleValues (key : PyValue)
  | tooManyPositional
  | missing (param : String)
  | raised (exc : String)
  deriving DecidableEq

def bindFields (kwargs : Dict PyValue) :
    List Attribute → List PyValue → Except InitError (List (String × PyValue))
  | [], _ => .ok []
  | a :: as, args =>
    if a.init then
      match args with
      | v :: rest => (bindFields kwargs as rest).map ((a.name, v) :: ·)
      | [] =>
        match kwargs.get (.str a.initName), a.default.value? with
        | some v, _ | none, some v => (bindFields kwargs as []).map ((a.name, v) :: ·)
        | none, none => .error (.missing a.initName)
    else
      match a.default.value? with
      | some v => (bindFields kwargs as args).map ((a.name, v) :: ·)
      | none => bindFields kwargs as args

/-- The binding of `cls(*args, **kwargs)` to the parameters of `__init__`. CPython checks each
keyword in turn, then the number of positional arguments, then binds. -/
def AttrsClass.bind (c : AttrsClass) (args : List PyValue) (kwargs : Dict PyValue) :
    Except InitError (List (String × PyValue)) :=
  let params := (c.fields.filter (·.init)).map (.str ·.initName)
  match kwargs.find? fun kv => kv.1 ∉ params ∨ kv.1 ∈ params.take args.length with
  | some kv => .error (if kv.1 ∉ params then .unexpectedKeyword kv.1 else .multipleValues kv.1)
  | none =>
    if params.length < args.length then .error .tooManyPositional
    else bindFields kwargs c.fields args

def AttrsClass.convert (c : AttrsClass) : List (String × PyValue) → Except String (List (String × PyValue))
  | [] => .ok []
  | (n, v) :: fs => match c.converter n v, c.convert fs with
    | .ok w, .ok ws => .ok ((n, w) :: ws)
    | .error e, _ | .ok _, .error e => .error e

/-- The body of `__init__` on the bound values: the converted assignments, then the validators in
field order, then `__attrs_post_init__`. -/
def AttrsClass.runInit (c : AttrsClass) (bound : List (String × PyValue)) :
    Except InitError (List (String × PyValue)) :=
  match c.convert bound with
  | .error exc => .error (.raised exc)
  | .ok inst =>
    match inst.findSome? fun f => c.validator f.1 inst with
    | some exc => .error (.raised exc)
    | none => (c.postInit inst).mapError .raised

/-- `cls(*args, **kwargs)`. -/
def AttrsClass.call (c : AttrsClass) (args : List PyValue) (kwargs : Dict PyValue) :
    Except InitError (List (String × PyValue)) :=
  match c.bind args kwargs with
  | .error e => .error e
  | .ok bound => c.runInit bound

/-! ## Binding -/

section Binding

theorem value?_eq_none {d : AttrDefault} : d.value? = none ↔ d = .nothing := by
  cases d <;> simp [AttrDefault.value?]

theorem bindFields_positional (kw kw' : Dict PyValue) (f : Attribute → PyValue) :
    ∀ fs : List Attribute,
      (fs.filter (·.init)).Pairwise (fun a b => a.default ≠ .nothing → b.default ≠ .nothing) →
      (∀ a ∈ fs, a.init → a.default = .nothing → kw'.get (.str a.initName) = some (f a)) →
      (∀ a ∈ fs, a.init → a.default ≠ .nothing →
        kw.get (.str a.initName) = kw'.get (.str a.initName)) →
      bindFields kw fs (((fs.filter (·.init)).filter (·.default = .nothing)).map f) =
        bindFields kw' fs [] := by
  intro fs
  induction fs with
  | nil => intro _ _ _; rfl
  | cons a as ih =>
      intro hpw hm ho
      have ih' := ih (by by_cases hi : a.init <;> simp_all [List.filter_cons])
        (fun b hb => hm b (.tail _ hb)) (fun b hb => ho b (.tail _ hb))
      by_cases hi : a.init
      · simp only [List.filter_cons, hi, if_true, List.pairwise_cons] at hpw
        by_cases hd : a.default = .nothing
        · have hfil : ((a :: as).filter (·.init)).filter (·.default = .nothing) =
              a :: (as.filter (·.init)).filter (·.default = .nothing) := by
            simp [List.filter_cons, hi, hd]
          rw [hfil, List.map_cons]
          simp only [bindFields, hi, if_true, hm a (.head _) hi hd, ih']
        · have hnil : (as.filter (·.init)).filter (·.default = .nothing) = [] :=
            List.filter_eq_nil_iff.mpr fun b hb => by simpa using hpw.1 b hb hd
          have hnil' : ((a :: as).filter (·.init)).filter (·.default = .nothing) = [] := by
            simp [List.filter_cons, hi, hd, hnil]
          rw [hnil, List.map_nil] at ih'
          rw [hnil', List.map_nil]
          simp only [bindFields, hi, if_true, ho a (.head _) hi hd, ih']
      · simp only [List.filter_cons, hi, Bool.false_eq_true, if_false] at ih' ⊢
        simp only [bindFields, hi, Bool.false_eq_true, if_false, ih']

theorem take_mandatory {l : List Attribute}
    (h : l.Pairwise fun a b => a.default ≠ .nothing → b.default ≠ .nothing) :
    l.take (l.filter (·.default = .nothing)).length = l.filter (·.default = .nothing) := by
  induction l with
  | nil => rfl
  | cons a l ih =>
      rw [List.pairwise_cons] at h
      by_cases hd : a.default = .nothing
      · simp [List.filter_cons, hd, ih h.2]
      · have hnil : l.filter (·.default = .nothing) = [] :=
          List.filter_eq_nil_iff.mpr fun b hb => by simpa using h.1 b hb hd
        simp [List.filter_cons, hd, hnil]

theorem AttrsClass.initName_inj (c : AttrsClass) {a b : Attribute} (ha : a ∈ c.fields)
    (hb : b ∈ c.fields) (hai : a.init) (hbi : b.init) (h : a.initName = b.initName) : a = b :=
  List.inj_on_of_nodup_map c.init_names_nodup (List.mem_filter.mpr ⟨ha, hai⟩)
    (List.mem_filter.mpr ⟨hb, hbi⟩) h

theorem AttrsClass.bind_keywords (c : AttrsClass) (kw : Dict PyValue)
    (hkw : ∀ k ∈ kw.map (·.1), ∃ a ∈ c.fields, a.init ∧ k = .str a.initName) :
    c.bind [] kw = bindFields kw c.fields [] := by
  have hfind : kw.find? (fun kv => kv.1 ∉ (c.fields.filter (·.init)).map (PyValue.str ·.initName) ∨
      kv.1 ∈ ((c.fields.filter (·.init)).map (PyValue.str ·.initName)).take 0) = none := by
    refine List.find?_eq_none.mpr fun kv hkv => ?_
    obtain ⟨a, ha, hi, hk⟩ := hkw kv.1 (List.mem_map_of_mem _ hkv)
    simp [hk, List.mem_map_of_mem (PyValue.str ·.initName) (List.mem_filter.mpr ⟨ha, hi⟩)]
  unfold AttrsClass.bind
  simp only [hfind, List.length_nil, Nat.not_lt_zero, if_false]

theorem AttrsClass.bind_positional (c : AttrsClass) (kw kw' : Dict PyValue) (f : Attribute → PyValue)
    (hkw : ∀ k ∈ kw.map (·.1), ∃ a ∈ c.fields, a.init ∧ a.default ≠ .nothing ∧ k = .str a.initName)
    (hkw' : ∀ k ∈ kw'.map (·.1), ∃ a ∈ c.fields, a.init ∧ k = .str a.initName)
    (hm : ∀ a ∈ c.fields, a.init → a.default = .nothing → kw'.get (.str a.initName) = some (f a))
    (ho : ∀ a ∈ c.fields, a.init → a.default ≠ .nothing →
      kw.get (.str a.initName) = kw'.get (.str a.initName)) :
    c.bind (((c.fields.filter (·.init)).filter (·.default = .nothing)).map f) kw = c.bind [] kw' := by
  have hparam : ∀ a ∈ c.fields, a.init →
      PyValue.str a.initName ∈ (c.fields.filter (·.init)).map (PyValue.str ·.initName) :=
    fun a ha hi => List.mem_map_of_mem _ (List.mem_filter.mpr ⟨ha, hi⟩)
  have htake : ((c.fields.filter (·.init)).map (PyValue.str ·.initName)).take
      (((c.fields.filter (·.init)).filter (·.default = .nothing)).map f).length =
      ((c.fields.filter (·.init)).filter (·.default = .nothing)).map (PyValue.str ·.initName) := by
    rw [List.length_map, ← List.map_take, take_mandatory c.mandatory_first]
  have hfind : kw.find? (fun kv => kv.1 ∉ (c.fields.filter (·.init)).map (PyValue.str ·.initName) ∨
      kv.1 ∈ ((c.fields.filter (·.init)).filter (·.default = .nothing)).map (PyValue.str ·.initName)) =
      none := by
    refine List.find?_eq_none.mpr fun kv hkv => ?_
    obtain ⟨a, ha, hi, hd, hk⟩ := hkw kv.1 (List.mem_map_of_mem _ hkv)
    simp only [decide_eq_true_eq, not_or, not_not]
    refine ⟨hk ▸ hparam a ha hi, fun hmem => ?_⟩
    obtain ⟨b, hb, hbe⟩ := List.mem_map.mp (hk ▸ hmem)
    obtain ⟨hb, hbd⟩ := List.mem_filter.mp hb
    obtain ⟨hbf, hbi⟩ := List.mem_filter.mp hb
    obtain rfl := c.initName_inj hbf ha hbi hi (PyValue.str.inj hbe)
    exact hd (of_decide_eq_true hbd)
  have hlen : ¬ ((c.fields.filter (·.init)).map (PyValue.str ·.initName)).length <
      (((c.fields.filter (·.init)).filter (·.default = .nothing)).map f).length := by
    simp only [List.length_map]
    exact Nat.not_lt.mpr (List.length_filter_le _ _)
  rw [c.bind_keywords kw' hkw']
  unfold AttrsClass.bind
  simp only [htake, hfind, hlen, if_false]
  exact bindFields_positional kw kw' f c.fields c.mandatory_first hm ho

theorem AttrsClass.get_initNames (c : AttrsClass) {p : Attribute → Bool}
    (hp : ∀ a ∈ c.fields, p a → a.init) (val : Attribute → PyValue) {a : Attribute}
    (ha : a ∈ c.fields) (hi : a.init) :
    Dict.get ((c.fields.filter p).map fun b => (PyValue.str b.initName, val b)) (.str a.initName) =
      if p a then some (val a) else none := by
  have hinj : ∀ x ∈ c.fields.filter p, ∀ y ∈ c.fields, y.init →
      PyValue.str x.initName = .str y.initName → x = y := fun x hx y hy hyi e =>
    let ⟨hx, hpx⟩ := List.mem_filter.mp hx
    c.initName_inj hx hy (hp x hx hpx) hyi (PyValue.str.inj e)
  split
  · have hnd : ((c.fields.filter p).map fun b => PyValue.str b.initName).Nodup :=
      ((c.names_nodup.of_map _).filter _).map_on fun x hx y hy e =>
        let ⟨hy, hpy⟩ := List.mem_filter.mp hy
        hinj x hx y hy (hp y hy hpy) e
    exact Dict.get_map_of_mem (fun b => PyValue.str b.initName) val hnd (List.mem_filter.mpr ⟨ha, ‹_›⟩)
  · exact Dict.get_map_of_forall_ne _ _ fun b hb e =>
      ‹¬ p a = true› (hinj b hb a ha hi e ▸ (List.mem_filter.mp hb).2)

theorem AttrsClass.call_congr (c : AttrsClass) {args args' : List PyValue} {kw kw' : Dict PyValue}
    (h : c.bind args kw = c.bind args' kw') : c.call args kw = c.call args' kw' := by
  simp only [AttrsClass.call, h]

end Binding

/-- `copy_attr(_attr, name=name, default=default, metadata={METADATA_ARGPARSER: m})`: the same
field under a new name, default and parser metadata. -/
def Attribute.copy (a : Attribute) (name : String) (default : AttrDefault) (m : ParserMeta) :
    Attribute :=
  { a with name := if name = "" then a.name else name, default, parser := some (.inline m) }

end Provisioner
