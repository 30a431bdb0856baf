import Provisioner.Values
import Mathlib.Logic.Function.Basic

/-!
# The `_spec` memo of `ParamGroupInputBase.param_spec`

`param_spec(cls, attr_name)` resolves the pillar parameter of one field of a group input class,
`param_spec['<group>/<attr_name>']`, and memoizes it in the class attribute `_spec`. The base
class holds `_spec = None`; the first call on a class whose `cls._spec` reads `None` assigns a
fresh dict to that class. A class attribute is read along the method resolution order, so a
subclass whose ancestor already owns a dict reads and writes the ancestor's dict.

Classes are numbered: `0` is `ParamGroupInputBase` itself, every other class derives from a
class with a smaller number (single inheritance, as in the source).
-/

namespace Provisioner

/-- A hierarchy of `ParamGroupInputBase` subclasses: the base of each class and the attrs fields
it declares, each with the param group of its metadata (`""` when it has none). -/
structure Hierarchy where
  parent : Nat → Nat
  fields : Nat → List (String × String)
  parent_lt : ∀ c, c ≠ 0 → parent c < c

namespace Hierarchy

variable (h : Hierarchy)

def mroAux : Nat → Nat → List Nat
  | 0, _ => [0]
  | fuel + 1, c => if c = 0 then [0] else c :: mroAux fuel (h.parent c)

/-- The method resolution order of class `c`, up to `ParamGroupInputBase`. -/
def mro (c : Nat) : List Nat := h.mroAux (c + 1) c

theorem mroAux_eq (fuel fuel' c : Nat) (hf : c < fuel) (hf' : c < fuel') :
    h.mroAux fuel c = h.mroAux fuel' c := by
  induction fuel generalizing fuel' c with
  | zero => omega
  | succ n ih =>
      obtain ⟨m, rfl⟩ : ∃ m, fuel' = m + 1 := ⟨fuel' - 1, by omega⟩
      by_cases hc : c = 0
      · simp [mroAux, hc]
      · have := h.parent_lt c hc
        simp only [mroAux, if_neg hc, ih m (h.parent c) (by omega) (by omega)]

@[simp] theorem mro_zero : h.mro 0 = [0] := rfl

theorem mro_of_ne_zero {c : Nat} (hc : c ≠ 0) : h.mro c = c :: h.mro (h.parent c) := by
  have := h.parent_lt c hc
  rw [mro, mroAux, if_neg hc, mroAux_eq h c (h.parent c + 1) (h.parent c) (by omega) (by omega)]
  rfl

theorem zero_mem_mro (c : Nat) : 0 ∈ h.mro c := by
  induction c using Nat.strong_induction_on with
  | _ c ih =>
      by_cases hc : c = 0
      · simp [hc]
      · rw [h.mro_of_ne_zero hc]
        exact List.mem_cons_of_mem _ (ih _ (h.parent_lt c hc))

/-- `q` is a proper ancestor of `c`. -/
def ProperAncestor (q c : Nat) : Prop := q ∈ (h.mro c).tail

instance (q c : Nat) : Decidable (h.ProperAncestor q c) :=
  inferInstanceAs (Decidable (q ∈ _))

def Related (c d : Nat) : Prop := h.ProperAncestor c d ∨ h.ProperAncestor d c

instance (c d : Nat) : Decidable (h.Related c d) := inferInstanceAs (Decidable (_ ∨ _))

theorem zero_properAncestor {c : Nat} (hc : c ≠ 0) : h.ProperAncestor 0 c := by
  simp [ProperAncestor, h.mro_of_ne_zero hc, zero_mem_mro]

theorem le_of_mem_mro (c : Nat) : ∀ q ∈ h.mro c, q ≤ c := by
  induction c using Nat.strong_induction_on with
  | _ c ih =>
      intro q hq
      by_cases hc : c = 0
      · subst hc
        simp_all
      · rcases List.mem_cons.mp (h.mro_of_ne_zero hc ▸ hq) with rfl | hq
        · exact le_refl q
        · exact (ih _ (h.parent_lt c hc) q hq).trans (h.parent_lt c hc).le

theorem not_related_self (c : Nat) : ¬ h.Related c c := by
  have hna : ¬ h.ProperAncestor c c := fun ha => by
    by_cases hc : c = 0
    · subst hc
      simp [ProperAncestor] at ha
    · rw [ProperAncestor, h.mro_of_ne_zero hc, List.tail_cons] at ha
      exact absurd (h.le_of_mem_mro _ c ha) (Nat.not_le.mpr (h.parent_lt c hc))
  exact fun hr => hr.elim hna hna

/-- The param group of field `a` of class `c` in `attr.fields_dict(c)`: the declaration of the
most derived class that declares it. -/
def fieldGroup (c : Nat) (a : String) : Option String :=
  ((h.mro c).filter (· ≠ 0)).findSome? fun k => (h.fields k).lookup a

end Hierarchy

inductive ParamSpecError where
  | notAttrsClass
  | unknownAttr (a : String)
  | unknownParam (path : String)
  deriving DecidableEq, Repr

/-- `"{}/{}".format(param_group, attr_name) if param_group else attr_name`. -/
def fullPath (group a : String) : String := if group = "" then a else group ++ "/" ++ a

variable {V : Type} (h : Hierarchy) (reg : String → Option V)

/-- The class attributes `_spec`: `none` where a class has no `_spec` of its own, `some none`
for `_spec = None`, `some (some d)` for a dict. -/
abbrev SpecAttrs (V : Type) := Nat → Option (Option (List (String × V)))

def SpecAttrs.init : SpecAttrs V := fun c => if c = 0 then some none else none

def specOwner (st : SpecAttrs V) (c : Nat) : Nat :=
  ((h.mro c).find? fun k => (st k).isSome).getD 0

/-- The unmemoized lookup: `param_spec[full_path]` for the field `a` of class `c`. -/
def specOf (c : Nat) (a : String) : Except ParamSpecError V :=
  if c = 0 then .error .notAttrsClass
  else
    match h.fieldGroup c a with
    | none => .error (.unknownAttr a)
    | some g =>
        match reg (fullPath g a) with
        | none => .error (.unknownParam (fullPath g a))
        | some p => .ok p

/-- `if cls._spec is None: cls._spec = {}`. -/
def ensureSpec (st : SpecAttrs V) (c : Nat) : SpecAttrs V :=
  if (st (specOwner h st c)).join.isNone then Function.update st c (some (some [])) else st

/-- The rest of `param_spec`: `attr_name` looked up in the dict `cls._spec` reads, computed and
stored there when missing. -/
def lookupSpec (st : SpecAttrs V) (c : Nat) (a : String) : Except ParamSpecError V × SpecAttrs V :=
  let o := specOwner h st c
  let d := (st o).join.getD []
  match d.lookup a with
  | some p => (.ok p, st)
  | none =>
      match specOf h reg c a with
      | .ok p => (.ok p, Function.update st o (some (some (d ++ [(a, p)]))))
      | .error e => (.error e, st)

/-- `ParamGroupInputBase.param_spec(cls, attr_name)`: its result and the class attributes
after the call. -/
def paramSpec (st : SpecAttrs V) (c : Nat) (a : String) : Except ParamSpecError V × SpecAttrs V :=
  lookupSpec h reg (ensureSpec h st c) c a

def runParamSpec : SpecAttrs V → List (Nat × String) → List (Except ParamSpecError V)
  | _, [] => []
  | st, (c, a) :: calls => (paramSpec h reg st c a).1 :: runParamSpec (paramSpec h reg st c a).2 calls

/-! ## Soundness when no called class derives from another -/

/-- The memo holds only what the unmemoized lookup gives: only classes called so far own a dict,
each dict serves its own class, and the base class keeps `None`, or an empty dict once called. -/
structure MemoSound (called : List Nat) (st : SpecAttrs V) : Prop where
  root : st 0 = some none ∨ (0 ∈ called ∧ st 0 = some (some []))
  owned : ∀ c, c ≠ 0 → st c ≠ none → c ∈ called ∧
    ∃ d, st c = some (some d) ∧ ∀ a p, d.lookup a = some p → specOf h reg c a = .ok p

theorem MemoSound.init : MemoSound h reg [] (SpecAttrs.init (V := V)) :=
  ⟨.inl rfl, fun c hc hs => absurd (by simp [SpecAttrs.init, hc]) hs⟩

variable {h reg}

theorem MemoSound.cons {called : List Nat} {st : SpecAttrs V} (c : Nat)
    (hs : MemoSound h reg called st) : MemoSound h reg (c :: called) st :=
  ⟨hs.root.imp_right fun ⟨hm, h0⟩ => ⟨List.mem_cons_of_mem c hm, h0⟩,
    fun k hk hn => (hs.owned k hk hn).imp_left (List.mem_cons_of_mem c)⟩

theorem MemoSound.mono {called called' : List Nat} {st : SpecAttrs V}
    (hs : MemoSound h reg called st) (hsub : called ⊆ called') : MemoSound h reg called' st :=
  ⟨hs.root.imp_right fun ⟨hm, h0⟩ => ⟨hsub hm, h0⟩,
    fun k hk hn => (hs.owned k hk hn).imp_left (@hsub k)⟩

theorem MemoSound.root_isSome {called : List Nat} {st : SpecAttrs V}
    (hs : MemoSound h reg called st) : (st 0).isSome := by
  rcases hs.root with h0 | ⟨-, h0⟩ <;> simp [h0]

theorem specOwner_of_unrelated {called : List Nat} {st : SpecAttrs V} {c : Nat}
    (hs : MemoSound h reg called st) (hc : ∀ q ∈ called, ¬ h.Related q c) :
    specOwner h st c = if (st c).isSome then c else 0 := by
  by_cases h0 : c = 0
  · subst h0
    simp [specOwner, hs.root_isSome]
  · unfold specOwner
    rw [h.mro_of_ne_zero h0]
    split
    · rename_i hsome
      rw [List.find?_cons_of_pos (p := fun k => (st k).isSome) _ hsome]
      rfl
    · rename_i hnone
      rw [List.find?_cons_of_neg (p := fun k => (st k).isSome) _ hnone,
        find?_of_unique (h.zero_mem_mro _) hs.root_isSome]
      · rfl
      intro k hk hks
      by_contra hk0
      have hown := (hs.owned k hk0 (Option.isSome_iff_ne_none.mp hks)).1
      exact hc k hown (.inl (by simp [Hierarchy.ProperAncestor, h.mro_of_ne_zero h0, hk]))

theorem lookup_append_singleton {α : Type} {l : List (String × α)} {a a' : String} {p p' : α}
    (h : (l ++ [(a, p)]).lookup a' = some p') : l.lookup a' = some p' ∨ (a' = a ∧ p' = p) := by
  rw [List.lookup_append] at h
  cases hl : l.lookup a' with
  | some q => exact .inl (by simpa [hl] using h)
  | none =>
      rw [hl, Option.none_or, List.lookup_cons] at h
      split at h
      · rename_i heq
        cases h
        exact .inr ⟨by simpa using heq, rfl⟩
      · cases h

theorem specOwner_self {st : SpecAttrs V} {c : Nat} (hc : (st c).isSome) : specOwner h st c = c := by
  unfold specOwner
  by_cases h0 : c = 0
  · subst h0
    simp [hc]
  · rw [h.mro_of_ne_zero h0, List.find?_cons_of_pos (p := fun k => (st k).isSome) _ hc]
    rfl

theorem lookupSpec_sound {called : List Nat} {st : SpecAttrs V} {c : Nat} (a : String)
    (hs : MemoSound h reg called st) (h0 : c ≠ 0) (hsome : st c ≠ none) :
    (lookupSpec h reg st c a).1 = specOf h reg c a ∧
      MemoSound h reg called (lookupSpec h reg st c a).2 := by
  obtain ⟨hmem, d, hd, hsound⟩ := hs.owned c h0 hsome
  unfold lookupSpec
  rw [specOwner_self (by simp [hd])]
  dsimp only
  rw [hd]
  simp only [Option.join, Option.some_bind, id, Option.getD_some]
  split
  · rename_i p hp
    exact ⟨(hsound a p hp).symm, hs⟩
  · split
    · rename_i p hp
      refine ⟨hp.symm, ?_⟩
      dsimp only
      refine ⟨by rw [Function.update_noteq (Ne.symm h0)]; exact hs.root, fun k hk hn => ?_⟩
      · by_cases hkc : k = c
        · subst hkc
          refine ⟨hmem, _, Function.update_same _ _ _, fun a' p' hl => ?_⟩
          rcases lookup_append_singleton hl with hl | ⟨rfl, rfl⟩
          · exact hsound a' p' hl
          · exact hp
        · rw [Function.update_noteq hkc] at hn ⊢
          exact hs.owned k hk hn
    · rename_i e he
      exact ⟨he.symm, hs⟩

theorem ensureSpec_sound {called : List Nat} {st : SpecAttrs V} {c : Nat}
    (hs : MemoSound h reg called st) (hc : ∀ q ∈ called, ¬ h.Related q c) (h0 : c ≠ 0) :
    MemoSound h reg (c :: called) (ensureSpec h st c) ∧ ensureSpec h st c c ≠ none := by
  by_cases hsc : (st c).isSome
  · obtain ⟨-, d, hd, -⟩ := hs.owned c h0 (Option.isSome_iff_ne_none.mp hsc)
    have hens : ensureSpec h st c = st := by
      simp [ensureSpec, specOwner_of_unrelated hs hc, hsc, hd]
    simp [hens, hd, hs.cons c]
  · have hroot : st 0 = some none := by
      rcases hs.root with h0' | ⟨hm, -⟩
      · exact h0'
      · exact absurd (.inl (h.zero_properAncestor h0)) (hc 0 hm)
    have hens : ensureSpec h st c = Function.update st c (some (some [])) := by
      simp [ensureSpec, specOwner_of_unrelated hs hc, hsc, hroot]
    rw [hens]
    refine ⟨⟨?_, fun k hk hn => ?_⟩, by simp⟩
    · simp [Function.update_noteq (Ne.symm h0), hroot]
    · by_cases hkc : k = c
      · subst hkc
        exact ⟨List.mem_cons_self k _, [], Function.update_same _ _ _, nofun⟩
      · rw [Function.update_noteq hkc] at hn ⊢
        exact (hs.owned k hk hn).imp_left (List.mem_cons_of_mem c)

theorem paramSpec_root_sound {called : List Nat} {st : SpecAttrs V} (a : String)
    (hs : MemoSound h reg called st) :
    (paramSpec h reg st 0 a).1 = specOf h reg 0 a ∧
      MemoSound h reg (0 :: called) (paramSpec h reg st 0 a).2 := by
  have hlook : ∀ st' : SpecAttrs V, st' 0 = some (some []) →
      lookupSpec h reg st' 0 a = (.error .notAttrsClass, st') := fun st' h0 => by
    unfold lookupSpec
    rw [specOwner_self (by simp [h0])]
    dsimp only
    rw [h0]
    simp [specOf]
  unfold paramSpec
  rcases hs.root with h0 | ⟨-, h0⟩
  · have hens : ensureSpec h st 0 = Function.update st 0 (some (some [])) := by
      simp [ensureSpec, specOwner_self (show (st 0).isSome by simp [h0]), h0]
    rw [hens, hlook _ (Function.update_same _ _ _)]
    refine ⟨by simp [specOf], ?_⟩
    dsimp only
    refine ⟨.inr ⟨List.mem_cons_self 0 _, Function.update_same _ _ _⟩, fun k hk hn => ?_⟩
    rw [Function.update_noteq hk] at hn ⊢
    exact (hs.owned k hk hn).imp_left (List.mem_cons_of_mem 0)
  · have hens : ensureSpec h st 0 = st := by
      simp [ensureSpec, specOwner_self (show (st 0).isSome by simp [h0]), h0]
    rw [hens, hlook _ h0]
    exact ⟨by simp [specOf], hs.cons 0⟩

theorem paramSpec_sound {called : List Nat} {st : SpecAttrs V} {c : Nat} (a : String)
    (hs : MemoSound h reg called st) (hc : ∀ q ∈ called, ¬ h.Related q c) :
    (paramSpec h reg st c a).1 = specOf h reg c a ∧
      MemoSound h reg (c :: called) (paramSpec h reg st c a).2 := by
  by_cases h0 : c = 0
  · subst h0
    exact paramSpec_root_sound a hs
  · obtain ⟨hs', hsome⟩ := ensureSpec_sound hs hc h0
    exact lookupSpec_sound a hs' h0 hsome

theorem runParamSpec_sound {called : List Nat} {st : SpecAttrs V} (calls : List (Nat × String))
    (hs : MemoSound h reg called st) (hc : ∀ x ∈ calls, ∀ q ∈ called, ¬ h.Related q x.1)
    (hpw : calls.Pairwise fun x y => ¬ h.Related x.1 y.1) :
    runParamSpec h reg st calls = calls.map fun x => specOf h reg x.1 x.2 := by
  induction calls generalizing called st with
  | nil => rfl
  | cons x calls ih =>
      obtain ⟨c, a⟩ := x
      obtain ⟨hres, hs'⟩ := paramSpec_sound a hs (hc (c, a) (List.mem_cons_self _ _))
      rw [runParamSpec, List.map_cons, hres, ih hs' ?_ (List.pairwise_cons.mp hpw).2]
      intro y hy q hq
      rcases List.mem_cons.mp hq with rfl | hq
      · exact (List.pairwise_cons.mp hpw).1 y hy
      · exact hc y (List.mem_cons_of_mem _ hy) q hq

/-- From the initial class attributes: when no called class derives from another, the memo
agrees with the unmemoized lookup on every call. -/
theorem runParamSpec_unrelated (calls : List (Nat × String))
    (hpw : calls.Pairwise fun x y => ¬ h.Related x.1 y.1) :
    runParamSpec h reg SpecAttrs.init calls = calls.map fun x => specOf h reg x.1 x.2 :=
  runParamSpec_sound calls (MemoSound.init h reg) (fun _ _ _ hq => absurd hq (List.not_mem_nil _))
    hpw

def sampleHierarchy : Hierarchy where
  parent c := c - 1
  fields c :=
    if c = 1 then [("server", "ntp")]
    else if c = 2 then [("server", "time"), ("timezone", "time")] else []
  parent_lt _ hc := Nat.sub_lt (Nat.pos_of_ne_zero hc) Nat.one_pos

theorem runParamSpec_unrelated_sample :
    runParamSpec sampleHierarchy some SpecAttrs.init
        [(2, "server"), (2, "timezone"), (2, "server")] =
      [(2, "server"), (2, "timezone"), (2, "server")].map
        fun x => specOf sampleHierarchy some x.1 x.2 :=
  runParamSpec_unrelated _ (by decide)

/-- Once the parent is queried, the subclass reads and writes the parent's dict: it answers the
parent's `server`, and the parent then answers the subclass's `timezone`. -/
theorem runParamSpec_sample_leak :
    runParamSpec sampleHierarchy some SpecAttrs.init
        [(1, "server"), (2, "server"), (2, "timezone"), (1, "timezone")] =
      [.ok "ntp/server", .ok "ntp/server", .ok "time/timezone", .ok "time/timezone"] ∧
    [(1, "server"), (2, "server"), (2, "timezone"), (1, "timezone")].map
        (fun x => specOf sampleHierarchy some x.1 x.2) =
      [.ok "ntp/server", .ok "time/server", .ok "time/timezone", .error (.unknownAttr "timezone")] :=
  ⟨rfl, rfl⟩

/-! ## `pillar_items`

`ParamGroupInputBase.pillar_items()` calls `param_spec` once per field of its class, in
`attr.fields_dict` order, and keys the instance's field values by the parameters it gets. -/

section PillarItems

variable [DecidableEq V]

/-- `res[key] = value` on a dict keyed by parameters: an existing key keeps its place. -/
def setItem : List (V × PyValue) → V → PyValue → List (V × PyValue)
  | [], k, v => [(k, v)]
  | (k', v') :: d, k, v => if k' = k then (k, v) :: d else (k', v') :: setItem d k v

variable (h reg) in
/-- `ParamGroupInputBase.pillar_items()` on an instance of class `c` whose fields hold `value`,
over the names of `attr.fields_dict(type(self))` from the dict `res` on:
`res[self.param_spec(name)] = getattr(self, name)` for each name in turn. The items, or the first
error, and the class attributes after the calls. -/
def pillarItems (c : Nat) (value : String → PyValue) :
    SpecAttrs V → List (V × PyValue) → List String →
      Except ParamSpecError (List (V × PyValue)) × SpecAttrs V
  | st, res, [] => (.ok res, st)
  | st, res, a :: names =>
      match paramSpec h reg st c a with
      | (.ok p, st') => pillarItems c value st' (setItem res p (value a)) names
      | (.error e, st') => (.error e, st')

/-- From a sound memo, on a class that no called class derives from or is derived from,
`pillar_items` gives what the registry gives without the memo: each field's value keyed by its
parameter, a later field replacing the value of an earlier one with the same parameter, or the
error of the first field the registry cannot resolve; and the memo stays sound. -/
theorem pillarItems_sound {called : List Nat} {st : SpecAttrs V} {c : Nat}
    (value : String → PyValue) (names : List String) (res : List (V × PyValue))
    (hs : MemoSound h reg called st) (hc : ∀ q ∈ called, ¬ h.Related q c) :
    (pillarItems h reg c value st res names).1 =
        (names.mapM (specOf h reg c)).map (fun ps =>
          (ps.zip (names.map value)).foldl (fun r e => setItem r e.1 e.2) res) ∧
      MemoSound h reg (c :: called) (pillarItems h reg c value st res names).2 := by
  induction names generalizing called st res with
  | nil => exact ⟨rfl, hs.cons c⟩
  | cons a names ih =>
      have hc' : ∀ q ∈ c :: called, ¬ h.Related q c :=
        List.forall_mem_cons.mpr ⟨h.not_related_self c, hc⟩
      obtain ⟨hres, hs'⟩ := paramSpec_sound a hs hc
      rcases hps : paramSpec h reg st c a with ⟨r, st'⟩
      rw [hps] at hres hs'
      cases hsp : specOf h reg c a with
      | error e =>
          cases (hres.trans hsp : r = .error e)
          simp only [pillarItems, hps, List.mapM_cons, hsp]
          exact ⟨rfl, hs'⟩
      | ok p =>
          cases (hres.trans hsp : r = .ok p)
          obtain ⟨ih₁, ih₂⟩ := ih (setItem res p (value a)) hs' hc'
          simp only [pillarItems, hps, ih₁, List.mapM_cons, hsp]
          refine ⟨by cases names.mapM (specOf h reg c) <;> rfl, ih₂.mono ?_⟩
          exact List.cons_subset.mpr ⟨.head _, List.Subset.refl _⟩

theorem pillarItems_sound_sample :
    (pillarItems sampleHierarchy some 2 (fun a => .str a) SpecAttrs.init [] ["server", "timezone"]).1 =
        (["server", "timezone"].mapM (specOf sampleHierarchy some 2)).map (fun ps =>
          (ps.zip (["server", "timezone"].map fun a => PyValue.str a)).foldl
            (fun r e => setItem r e.1 e.2) []) ∧
      MemoSound sampleHierarchy some [2]
        (pillarItems sampleHierarchy some 2 (fun a => .str a) SpecAttrs.init [] ["server", "timezone"]).2 :=
  pillarItems_sound _ _ [] (MemoSound.init _ _) (fun _ hq => absurd hq (List.not_mem_nil _))

end PillarItems

end Provisioner
