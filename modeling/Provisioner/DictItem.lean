import Provisioner.Pillar

/-!
# Dict-item inputs and `ParamsList`

A dict-item input (`ParamDictItemInputBase`) writes its value under the entry of a collection
named by its key field: `param_spec()` builds `Param(d.name / key, (d.keypath / key, d.fpath))`.
`ParamsList.from_args` reads a parameter back from its key path text: the path itself when it is
registered, else the entry of the collection registered at its parent.
-/

namespace Provisioner

/-- What `ParamsList.from_args` raises: `UnknownParamError(str(key_path))`, or the `KeyError` of
`key_path.parent`. -/
inductive FromArgsError where
  | unknownParam (keyPath : String)
  | keyError
  deriving DecidableEq

/-- The entry `d.name / key` of a collection: what a dict-item input with key `key` writes to. -/
def ParamDictItem.itemParam (d : ParamDictItem) (key : String) : Param :=
  ⟨d.name.div key, d.keypath.div key, d.fpath⟩

/-- One argument of `ParamsList.from_args`. -/
def ParamsList.resolve (reg : ParamRegistry) (arg : String) : Except FromArgsError ParamEntry :=
  let keyPath := KeyPath.ofString arg
  match reg keyPath.toString with
  | some e => .ok e
  | none =>
      match keyPath.parent with
      | .error _ => .error .keyError
      | .ok parent =>
          match reg parent.toString, keyPath.leaf with
          | some (.dictItem d), some leaf => .ok (.param ⟨keyPath, d.keypath.div leaf, d.fpath⟩)
          | _, _ => .error (.unknownParam keyPath.toString)

/-- `ParamsList.from_args(*args)`. -/
def ParamsList.fromArgs (reg : ParamRegistry) (args : List String) :
    Except FromArgsError (List ParamEntry) :=
  args.mapM (ParamsList.resolve reg)

structure KeyTypeError where
  key : PyValue

/-- A `ParamDictItemInputBase` instance: its dict item `_param_di`, its field values, and the
memo `_param` of `param_spec()`. -/
structure DictItemInput where
  paramDi : ParamDictItem
  field : String → PyValue
  param : Option Param

namespace DictItemInput

variable (self : DictItemInput)

/-- `param_spec()`: the memo, or the parameter built from the key field, then memoized. -/
def paramSpec : Except KeyTypeError (Param × DictItemInput) :=
  match self.param with
  | some p => .ok (p, self)
  | none =>
      match self.field self.paramDi.key with
      | .str k => .ok (self.paramDi.itemParam k, { self with param := some (self.paramDi.itemParam k) })
      | v => .error ⟨v⟩

/-- `pillar_items()`: the one pair of the parameter and the value field. -/
def pillarItems : Except KeyTypeError (List (Param × PyValue) × DictItemInput) :=
  self.paramSpec.map fun r => ([(r.1, self.field self.paramDi.value)], r.2)

variable {self}

theorem paramSpec_fresh {k : String} (hp : self.param = none)
    (hk : self.field self.paramDi.key = .str k) :
    self.paramSpec = .ok (self.paramDi.itemParam k,
      { self with param := some (self.paramDi.itemParam k) }) := by
  simp [paramSpec, hp, hk]

end DictItemInput

theorem resolve_itemParam (reg : ParamRegistry) (d : ParamDictItem)
    (hd : reg d.name.toString = some (.dictItem d)) {k : String} (hk : '/' ∉ k.toList)
    (hnot : reg (d.name.div k).toString = none) :
    ParamsList.resolve reg (d.name.div k).toString = .ok (.param (d.itemParam k)) := by
  have hne : (d.name.div k).parts ≠ [] := by simp [KeyPath.div_parts d.name hk]
  simp only [ParamsList.resolve, KeyPath.ofString_toString _ hne, hnot, KeyPath.parent_div _ hk,
    hd, KeyPath.leaf_div _ hk]
  rfl

/-- `param_spec()` of a fresh dict-item input and `ParamsList.from_args` on the text of its key
path name the same parameter: same name, same storage key path, same file. -/
theorem paramSpec_read_back (reg : ParamRegistry) (self : DictItemInput)
    (hd : reg self.paramDi.name.toString = some (.dictItem self.paramDi)) (hp : self.param = none)
    {k : String} (hk : self.field self.paramDi.key = .str k) (hsep : '/' ∉ k.toList)
    (hnot : reg (self.paramDi.name.div k).toString = none) :
    ∃ p self', self.paramSpec = .ok (p, self') ∧
      ParamsList.fromArgs reg [(self.paramDi.name.div k).toString] = .ok [.param p] := by
  refine ⟨_, _, DictItemInput.paramSpec_fresh hp hk, ?_⟩
  rw [ParamsList.fromArgs, List.mapM_cons, resolve_itemParam reg _ hd hsep hnot]
  rfl

def sampleRepoParam : ParamDictItem where
  name := KeyPath.ofString "swupdate/repo"
  keypath := KeyPath.ofString "update/repos"
  fpath := none
  key := "release"
  value := "source"

def sampleRegistry : ParamRegistry := fun s =>
  if s = "swupdate/repo" then some (.dictItem sampleRepoParam) else none

def sampleRepoInput (release : String) : DictItemInput where
  paramDi := sampleRepoParam
  field f := if f = "release" then .str release else .str "/iso/2.0.0-1.iso"
  param := none

theorem paramSpec_read_back_sample :
    ∃ p self', (sampleRepoInput "2.0.0-1").paramSpec = .ok (p, self') ∧
      ParamsList.fromArgs sampleRegistry [(sampleRepoParam.name.div "2.0.0-1").toString] =
        .ok [.param p] :=
  paramSpec_read_back sampleRegistry _ (by decide) rfl rfl (by decide) (by decide)

/-- Both conditions are needed. A key holding the separator is written two levels down, where
`from_args` finds neither the path nor a collection at its parent. An instance that memoized its
parameter before its key field was reassigned keeps writing to the old entry, while `from_args`
on the new key's path names the new one. -/
theorem paramSpec_read_back_breaks :
    ((∃ self', (sampleRepoInput "a/b").paramSpec = .ok (sampleRepoParam.itemParam "a/b", self')) ∧
      ParamsList.fromArgs sampleRegistry [(sampleRepoParam.name.div "a/b").toString] =
        .error (.unknownParam "swupdate/repo/a/b")) ∧
    ∃ memoized, (sampleRepoInput "1.0.0-1").paramSpec =
        .ok (sampleRepoParam.itemParam "1.0.0-1", memoized) ∧
      { memoized with field := (sampleRepoInput "2.0.0-1").field }.paramSpec =
        .ok (sampleRepoParam.itemParam "1.0.0-1",
          { memoized with field := (sampleRepoInput "2.0.0-1").field }) ∧
      ParamsList.fromArgs sampleRegistry [(sampleRepoParam.name.div "2.0.0-1").toString] =
        .ok [.param (sampleRepoParam.itemParam "2.0.0-1")] ∧
      sampleRepoParam.itemParam "1.0.0-1" ≠ sampleRepoParam.itemParam "2.0.0-1" :=
  ⟨⟨⟨_, rfl⟩, by decide⟩, _, rfl, rfl, by decide, by decide⟩

end Provisioner
