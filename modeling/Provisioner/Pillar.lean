import Provisioner.Values

/-!
# Key paths and parameters

The pillar addressing the inputs write through: key paths, the parameters of the registry
`param_spec`, and the dict-item parameters that name a collection of entries.
-/

namespace Provisioner

/-- Modelled from the spec: `KeyPath` of `pillar.py`, which is not part of the source. The spec
describes it as an ordered sequence of segments with the separator `/`, equal iff the segments
are, with `parent` (all segments but the last, failing on the empty path), `leaf` (the last
segment) and `join` (concatenation of the segments). Text is read by splitting on the
separator, so no segment holds it. -/
structure KeyPath where
  parts : List String
  parts_sep : ∀ s ∈ parts, '/' ∉ s.toList
  deriving DecidableEq

structure KeyError where
  deriving DecidableEq

namespace KeyPath

/-- `KeyPath(text)`. -/
def ofString (s : String) : KeyPath :=
  ⟨(splitOn '/' s.toList).map String.mk, by
    simp only [List.mem_map]
    rintro _ ⟨p, hp, rfl⟩
    exact not_mem_of_mem_splitOn hp⟩

/-- `str(path)`. -/
def toString (p : KeyPath) : String := ⟨joinWith '/' (p.parts.map String.toList)⟩

/-- `path / other`. -/
def join (p q : KeyPath) : KeyPath :=
  ⟨p.parts ++ q.parts, by
    intro s hs
    rcases List.mem_append.mp hs with hs | hs
    · exact p.parts_sep s hs
    · exact q.parts_sep s hs⟩

/-- `path / key` for a text key. -/
def div (p : KeyPath) (key : String) : KeyPath := p.join (ofString key)

/-- `path.parent`. -/
def parent (p : KeyPath) : Except KeyError KeyPath :=
  if p.parts = [] then .error ⟨⟩
  else .ok ⟨p.parts.dropLast, fun s hs => p.parts_sep s (List.dropLast_subset _ hs)⟩

/-- `path.leaf`. -/
def leaf (p : KeyPath) : Option String := p.parts.getLast?

theorem ext' {p q : KeyPath} (h : p.parts = q.parts) : p = q := by
  cases p; cases q; cases h; rfl

theorem ofString_of_not_mem {k : String} (hk : '/' ∉ k.toList) : (ofString k).parts = [k] := by
  change (splitOn '/' k.toList).map String.mk = [k]
  rw [splitOn_of_not_mem hk]
  rfl

theorem ofString_toString (p : KeyPath) (hp : p.parts ≠ []) : ofString p.toString = p := by
  apply ext'
  have hsep : ∀ q ∈ p.parts.map String.toList, '/' ∉ q := by
    simp only [List.mem_map]
    rintro _ ⟨s, hs, rfl⟩
    exact p.parts_sep s hs
  change (splitOn '/' (joinWith '/' (p.parts.map String.toList))).map String.mk = p.parts
  rw [splitOn_joinWith (by simpa using hp) hsep, List.map_map]
  exact List.map_id'' (fun _ => rfl) _

theorem div_parts (p : KeyPath) {k : String} (hk : '/' ∉ k.toList) :
    (p.div k).parts = p.parts ++ [k] := by
  simp [div, join, ofString_of_not_mem hk]

theorem parent_div (p : KeyPath) {k : String} (hk : '/' ∉ k.toList) :
    (p.div k).parent = .ok p := by
  rw [parent, if_neg (by simp [div_parts p hk])]
  congr
  simp [div_parts p hk]

theorem leaf_div (p : KeyPath) {k : String} (hk : '/' ∉ k.toList) : (p.div k).leaf = some k := by
  simp [leaf, div_parts p hk]

end KeyPath

/-- Modelled from the spec: `Param` of `param.py`, a parameter descriptor: its name, the key path
it is stored under and the pillar file that holds it (`None`: derived from the key path). -/
structure Param where
  name : KeyPath
  keypath : KeyPath
  fpath : Option String
  deriving DecidableEq

/-- Modelled from the spec: `ParamDictItem`, a parameter naming a collection whose entries are
keyed by the input field `key` and hold the input field `value`. -/
structure ParamDictItem where
  name : KeyPath
  keypath : KeyPath
  fpath : Option String
  key : String
  value : String
  deriving DecidableEq

/-- An entry of the registry `param_spec`: a parameter, or a dict item. -/
inductive ParamEntry where
  | param (p : Param)
  | dictItem (d : ParamDictItem)
  deriving DecidableEq

/-- The external registry `param_spec`, `dict.get` by key path text. -/
abbrev ParamRegistry := String → Option ParamEntry

end Provisioner
