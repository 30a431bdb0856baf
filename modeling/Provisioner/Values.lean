import Provisioner.Text
import Mathlib.Data.List.Nodup

/-!
# Python values

The values that reach the input classes: what a CLI token decodes to, what a caller passes,
and what the constructors store. Only what the modelled code inspects is kept: truth value,
`str()` rendering, and equality.
-/

namespace Provisioner

/-- Modelled from the spec: the sentinels of `values.py`, which is not part of the source.
The spec names `UNDEFINED`, `UNCHANGED` and `NONE`, and a fourth "delete this entry" marker used
by removal flows. They are singleton marker objects compared by identity. -/
inductive Special where
  | undefined
  | unchanged
  | none
  | remove
  deriving DecidableEq, Repr

/-- A `pathlib.PurePosixPath`: its root (`""`, `"/"` or `"//"`) and its parts, which are never
empty, never `"."` and hold no `'/'`. -/
structure PurePath where
  root : String
  parts : List String
  root_ok : root = "" ∨ root = "/" ∨ root = "//"
  parts_ok : ∀ p ∈ parts, p ≠ "" ∧ p ≠ "." ∧ '/' ∉ p.toList
  deriving DecidableEq

/-- A Python value. `obj` is any other object (a float, a list, a dict, an instance): it is
compared by identity (`id`), has the given truth value and renders under `str()` as `text`. -/
inductive PyValue where
  | none
  | bool (b : Bool)
  | int (n : Int)
  | str (s : String)
  | special (k : Special)
  | path (p : PurePath)
  | obj (id : Nat) (truthy : Bool) (text : String)
  deriving DecidableEq

/-- `str(path)`. -/
def PurePath.toString (p : PurePath) : String :=
  if p.root = "" ∧ p.parts = [] then "." else ⟨p.root.toList ++ joinWith '/' (p.parts.map String.toList)⟩

section

-- the literal token each sentinel renders as under `str()`, defined in `values.py`
variable (token : Special → String)

/-- `str(v)`. -/
def PyValue.toStr : PyValue → String
  | .none => "None"
  | .bool true => "True"
  | .bool false => "False"
  | .int n => toString n
  | .str s => s
  | .special k => token k
  | .path p => p.toString
  | .obj _ _ text => text

end

/-- `bool(v)`. Sentinels and paths define neither `__bool__` nor `__len__`, so they are true. -/
def PyValue.truthy : PyValue → Bool
  | .none => false
  | .bool b => b
  | .int n => n != 0
  | .str s => s != ""
  | .special _ => true
  | .path _ => true
  | .obj _ t _ => t

/-- Modelled from the spec: `values.is_special`, true of `UNDEFINED`, `UNCHANGED` and the
removal marker. -/
def PyValue.isSpecial : PyValue → Bool
  | .special k => k != .none
  | _ => false

@[simp] theorem isSpecial_str (s : String) : (PyValue.str s).isSpecial = false := rfl
@[simp] theorem isSpecial_path (p : PurePath) : (PyValue.path p).isSpecial = false := rfl

structure AttributeError where
  cls : String
  name : String
  deriving DecidableEq, Repr

instance instDecidableEqExcept {ε α : Type} [DecidableEq ε] [DecidableEq α] :
    DecidableEq (Except ε α)
  | .ok a, .ok b => if h : a = b then isTrue (h ▸ rfl) else isFalse fun e => h (Except.ok.inj e)
  | .error a, .error b =>
      if h : a = b then isTrue (h ▸ rfl) else isFalse fun e => h (Except.error.inj e)
  | .ok _, .error _ => isFalse nofun
  | .error _, .ok _ => isFalse nofun

theorem exists_of_map_eq_ok {ε α β : Type} {f : α → β} {x : Except ε α} {b : β}
    (h : x.map f = .ok b) : ∃ a, x = .ok a ∧ f a = b := by
  cases x with
  | error => cases h
  | ok a => exact ⟨a, rfl, Except.ok.inj h⟩

theorem find?_of_unique {α : Type} {p : α → Bool} {l : List α} {x : α} (hx : x ∈ l)
    (hp : p x) (hu : ∀ y ∈ l, p y → y = x) : l.find? p = some x := by
  induction l with
  | nil => cases hx
  | cons y l ih =>
      by_cases hy : p y
      · rw [List.find?_cons_of_pos _ hy, hu y (List.mem_cons_self y l) hy]
      · rw [List.find?_cons_of_neg _ hy]
        rcases List.mem_cons.mp hx with rfl | hx
        · exact absurd hp hy
        · exact ih hx fun z hz => hu z (List.mem_cons_of_mem y hz)

/-- A Python `dict`: its entries in insertion order, keys pairwise distinct. -/
abbrev Dict (α : Type) := List (PyValue × α)

namespace Dict

variable {α : Type}

/-- `d[k] = v`: an existing key keeps its place and takes the new value. -/
def set : Dict α → PyValue → α → Dict α
  | [], k, v => [(k, v)]
  | (k', v') :: d, k, v => if k' = k then (k, v) :: d else (k', v') :: set d k v

/-- The dict literal `{k1: v1, k2: v2, ...}`: later duplicates overwrite earlier ones. -/
def ofList (entries : List (PyValue × α)) : Dict α :=
  entries.foldl (fun d e => d.set e.1 e.2) []

/-- `d.get(k)`. -/
def get : Dict α → PyValue → Option α
  | [], _ => none
  | (k', v') :: d, k => if k' = k then some v' else get d k

/-- `d.pop(k)`, its value discarded. -/
def erase : Dict α → PyValue → Dict α
  | [], _ => []
  | (k', v') :: d, k => if k' = k then d else (k', v') :: erase d k

def Equiv (d e : Dict α) : Prop := ∀ k, d.get k = e.get k

theorem get_set (d : Dict α) (k k' : PyValue) (v : α) :
    (d.set k v).get k' = if k = k' then some v else d.get k' := by
  induction d with
  | nil => rfl
  | cons e d ih =>
      obtain ⟨k₀, v₀⟩ := e
      by_cases h₀ : k₀ = k
      · subst h₀
        by_cases hk : k₀ = k' <;> simp [set, get, hk]
      · by_cases hk : k₀ = k'
        · subst hk
          simp [set, get, h₀, Ne.symm h₀]
        · simp [set, get, h₀, hk, ih]

theorem set_of_get {d : Dict α} {k : PyValue} {v : α} (h : d.get k = some v) : d.set k v = d := by
  induction d with
  | nil => cases h
  | cons e d ih =>
      obtain ⟨k₀, v₀⟩ := e
      by_cases hk : k₀ = k
      · subst hk
        obtain rfl : v₀ = v := by simpa [get] using h
        simp [set]
      · simp only [get, if_neg hk] at h
        simp [set, hk, ih h]

theorem isSome_get_set {d : Dict α} {k k' : PyValue} (v : α) (h : (d.get k').isSome) :
    ((d.set k v).get k').isSome := by
  rw [get_set]
  split <;> simp [h]

theorem set_of_not_mem (d : Dict α) (k : PyValue) (v : α) (h : k ∉ d.map (·.1)) :
    d.set k v = d ++ [(k, v)] := by
  induction d with
  | nil => rfl
  | cons e d ih =>
      simp only [List.map_cons, List.mem_cons, not_or] at h
      simp [set, Ne.symm h.1, ih h.2]

theorem not_mem_keys_append {d : Dict α} {k k' : PyValue} (v : α) (hd : k ∉ d.map (·.1))
    (hk : k ≠ k') : k ∉ (d ++ [(k', v)]).map (·.1) := by
  simpa [hk] using hd

theorem get_foldl_set (entries : List (PyValue × α)) (d : Dict α) (k : PyValue) :
    (entries.foldl (fun d e => d.set e.1 e.2) d).get k = ((ofList entries).get k).or (d.get k) := by
  induction entries generalizing d with
  | nil => rfl
  | cons e es ih =>
      have hcons : (ofList (e :: es)).get k = ((ofList es).get k).or ((set [] e.1 e.2).get k) := ih _
      rw [List.foldl_cons, ih, hcons, get_set, get_set]
      by_cases h : e.1 = k <;> cases (ofList es).get k <;> simp [h, get]

theorem ofList_of_nodup (es : List (PyValue × α)) (h : (es.map (·.1)).Nodup) :
    ofList es = es := by
  suffices ∀ d : Dict α, (d.map (·.1) ++ es.map (·.1)).Nodup →
      es.foldl (fun d e => d.set e.1 e.2) d = d ++ es by
    simpa using this [] (by simpa using h)
  clear h
  induction es with
  | nil => simp
  | cons e es ih =>
      intro d hd
      have hfresh : e.1 ∉ d.map (·.1) := by
        intro hm
        exact List.disjoint_of_nodup_append hd hm (List.mem_cons_self e.1 _)
      rw [List.foldl_cons, set_of_not_mem d e.1 e.2 hfresh, ih]
      · simp
      · simpa [List.map_append, List.append_assoc] using hd

theorem get_ofList_const (ks : List PyValue) (v : α) (k : PyValue) :
    (ofList (ks.map fun k => (k, v))).get k = if k ∈ ks then some v else none := by
  suffices ∀ d : Dict α, ((ks.map fun k => (k, v)).foldl (fun d e => d.set e.1 e.2) d).get k =
      if k ∈ ks then some v else d.get k from this []
  induction ks with
  | nil => simp
  | cons k₀ ks ih =>
      intro d
      rw [List.map_cons, List.foldl_cons, ih, get_set]
      by_cases h₀ : k₀ = k
      · simp [h₀]
      · by_cases hk : k ∈ ks <;> simp [h₀, hk, Ne.symm h₀]

theorem get_ofList_ne_none {es : List (PyValue × α)} {k : PyValue} (h : k ∈ es.map (·.1)) :
    (ofList es).get k ≠ none := by
  suffices ∀ d : Dict α, (d.get k ≠ none ∨ k ∈ es.map (·.1)) →
      (es.foldl (fun d e => d.set e.1 e.2) d).get k ≠ none from this [] (.inr h)
  clear h
  induction es with
  | nil => simp
  | cons e es ih =>
      intro d hd
      apply ih
      by_cases he : e.1 = k
      · simp [get_set, he]
      · rw [get_set, if_neg he]
        simpa [he, Ne.symm he] using hd

theorem ofList_cons_equiv {e : PyValue × α} {l : List (PyValue × α)} (h : e.1 ∈ l.map (·.1)) :
    Equiv (ofList (e :: l)) (ofList l) := by
  intro k
  show Dict.get (l.foldl (fun d e => Dict.set d e.1 e.2) [e]) k = _
  rw [get_foldl_set]
  by_cases hk : e.1 = k
  · obtain ⟨v, hv⟩ := Option.ne_none_iff_exists'.mp (get_ofList_ne_none (hk ▸ h))
    rw [hv]
    rfl
  · simp [get, hk]

theorem mem_of_get (d : Dict α) (k : PyValue) (v : α) (h : d.get k = some v) : (k, v) ∈ d := by
  induction d with
  | nil => cases h
  | cons e d ih =>
      obtain ⟨k₀, v₀⟩ := e
      unfold get at h
      split at h
      · cases h
        subst k₀
        exact List.mem_cons_self _ _
      · exact List.mem_cons_of_mem _ (ih h)

theorem get_erase_ne (d : Dict α) {k k' : PyValue} (h : k ≠ k') : (d.erase k).get k' = d.get k' := by
  induction d with
  | nil => rfl
  | cons e d ih =>
      obtain ⟨k₀, v₀⟩ := e
      by_cases h₀ : k₀ = k
      · subst h₀
        simp [erase, get, h]
      · simp only [erase, if_neg h₀, get, ih]

theorem erase_of_get_none {d : Dict α} {k : PyValue} (h : d.get k = none) : d.erase k = d := by
  induction d with
  | nil => rfl
  | cons e d ih =>
      obtain ⟨k₀, v₀⟩ := e
      have hk : k₀ ≠ k := fun e => by simp [get, e] at h
      simp only [get, if_neg hk] at h
      simp only [erase, if_neg hk, ih h]

theorem erase_comm (d : Dict α) (k k' : PyValue) : (d.erase k).erase k' = (d.erase k').erase k := by
  induction d with
  | nil => rfl
  | cons e d ih =>
      obtain ⟨k₀, v₀⟩ := e
      by_cases h : k₀ = k <;> by_cases h' : k₀ = k'
      · rw [← h, ← h']
      · subst h
        simp [erase, h']
      · subst h'
        simp [erase, h]
      · simp [erase, h, h', ih]

theorem keys_erase_sublist (d : Dict α) (k : PyValue) :
    ((d.erase k).map (·.1)).Sublist (d.map (·.1)) := by
  induction d with
  | nil => exact .slnil
  | cons e d ih =>
      unfold erase
      split
      · exact .cons _ (.refl _)
      · exact ih.cons₂ _

theorem get_erase_self {d : Dict α} (hnd : (d.map (·.1)).Nodup) (k : PyValue) :
    (d.erase k).get k = none := by
  induction d with
  | nil => rfl
  | cons e d ih =>
      obtain ⟨k₀, v₀⟩ := e
      rw [List.map_cons, List.nodup_cons] at hnd
      by_cases hk : k₀ = k
      · subst hk
        rw [erase, if_pos rfl]
        cases hg : Dict.get d k₀ with
        | none => rfl
        | some v => exact absurd (List.mem_map_of_mem (·.1) (mem_of_get d k₀ v hg)) hnd.1
      · simp only [erase, if_neg hk, get, ih hnd.2]

theorem get_map_of_mem {β : Type} {l : List β} (key : β → PyValue) (val : β → α)
    (hl : (l.map key).Nodup) {b : β} (hb : b ∈ l) :
    get (l.map fun b => (key b, val b)) (key b) = some (val b) := by
  induction l with
  | nil => cases hb
  | cons x l ih =>
      rw [List.map_cons, List.nodup_cons] at hl
      rcases List.mem_cons.mp hb with rfl | hb
      · simp [get]
      · have hne : key x ≠ key b := fun e => hl.1 (e ▸ List.mem_map_of_mem key hb)
        simp [get, hne, ih hl.2 hb]

theorem get_map_of_forall_ne {β : Type} {l : List β} (key : β → PyValue) (val : β → α)
    {k : PyValue} (h : ∀ b ∈ l, key b ≠ k) : get (l.map fun b => (key b, val b)) k = none := by
  induction l with
  | nil => rfl
  | cons x l ih =>
      simp only [List.map_cons, get, if_neg (h x (List.mem_cons_self x l))]
      exact ih fun b hb => h b (List.mem_cons_of_mem x hb)

end Dict

end Provisioner
