import Provisioner.Values

/-!
# SW upgrade repo layouts

`SWUpgradeRepo.pillar_value` and `SWUpgradeRemoveRepo.pillar_value`: the pillar entries written
for a release installed from a remote source or from a local ISO of version 1 or 2, and the
entries nulled when a release is removed.

`pillar_value` reads `self.target_build` and `self.enabled`, while the attrs fields holding the
constructor arguments are `_target_build` and `_enabled`; no property of the class exposes them
under the public names. Those reads therefore answer only when a caller has assigned the public
attributes on the instance, which `SWUpgradeRepo.assigned` records.
-/

namespace Provisioner

/-- `config.ISOVersion`. -/
inductive ISOVersion where
  | version1
  | version2
  deriving DecidableEq, Repr

/-- The names `config.py` gives the layout directories and versions. `config.py` is not part of
the source, so they are parameters. -/
structure Config where
  osIsoDir : String
  cortxIsoDir : String
  cortx3rdPartyIsoDir : String
  cortxPythonIsoDir : String
  swupgradeReposDir : String
  fw : String
  os : String
  sw : String
  external : String
  python : String
  rpm : String
  cortx : String
  epel7 : String
  commons : String
  performance : String
  version1 : String
  version2 : String

/-- `source_version.value`. -/
def Config.versionValue (cfg : Config) : ISOVersion → String
  | .version1 => cfg.version1
  | .version2 => cfg.version2

def Config.ver1Components (cfg : Config) : List String :=
  [cfg.osIsoDir, cfg.cortxIsoDir, cfg.cortx3rdPartyIsoDir, cfg.cortxPythonIsoDir]

def Config.ver2Components (cfg : Config) : List String :=
  [cfg.fw, cfg.os, cfg.cortx, cfg.python, cfg.epel7, cfg.commons, cfg.performance]

def Config.Distinct (cfg : Config) : Prop := (cfg.ver1Components ++ cfg.ver2Components).Nodup

instance (cfg : Config) : Decidable cfg.Distinct := inferInstanceAs (Decidable (List.Nodup _))

def sampleConfig : Config where
  osIsoDir := "os"
  cortxIsoDir := "cortx_iso"
  cortx3rdPartyIsoDir := "3rd_party"
  cortxPythonIsoDir := "python_deps"
  swupgradeReposDir := "swupgrade_repos"
  fw := "FW"
  os := "OS"
  sw := "SW"
  external := "EXTERNAL"
  python := "PYTHON"
  rpm := "RPM"
  cortx := "CORTX"
  epel7 := "EPEL-7"
  commons := "COMMONS"
  performance := "PERFORMANCE"
  version1 := "1.0.0"
  version2 := "2.0.0"

/-- One component entry: the dict `{'source': ..., 'version': ..., 'is_repo': ..., 'enabled': ...}`
with its optional keys. -/
structure RepoEntry where
  source : String
  version : Option String
  isRepo : Bool
  enabled : Option PyValue
  deriving DecidableEq

/-- The fields of a `SWUpgradeRepo` that `pillar_value` reads. -/
structure SWUpgradeRepo where
  source : PyValue
  release : PyValue
  sourceVersion : ISOVersion
  targetBuild : PyValue
  enabled : PyValue
  assigned : List (String × PyValue)

structure SWUpgradeRemoveRepo where
  release : String

def sampleVer2Repo : SWUpgradeRepo where
  source := .path ⟨"/", ["iso", "2.0.0-1.iso"], by decide, by decide⟩
  release := .str "2.0.0-1"
  sourceVersion := .version2
  targetBuild := .str "/builds"
  enabled := .bool true
  assigned := [("target_build", .str "/builds"), ("enabled", .bool true)]

namespace SWUpgradeRepo

variable (token : Special → String) (cfg : Config) (self : SWUpgradeRepo)

/-- `getattr(self, name)` for a public name that is not an attrs field of the class and that no
class of the source defines: only an attribute assigned on the instance answers. -/
def getattr (name : String) : Except AttributeError PyValue :=
  match self.assigned.lookup name with
  | some v => .ok v
  | none => .error ⟨"SWUpgradeRepo", name⟩

def isSpecial : Bool := self.source.isSpecial

def isLocal : Bool := !self.isSpecial && self.source matches .path _

def isRemote : Bool := !(self.isSpecial || self.isLocal)

/-- `file://<target_build>/<release>/<dir>`. -/
def fileSource (targetBuild : PyValue) (dir : String) : String :=
  "file://" ++ targetBuild.toStr token ++ "/" ++ self.release.toStr token ++ "/" ++ dir

def releaseEntry : PyValue × Option RepoEntry :=
  (.str (self.release.toStr token),
    some ⟨"salt://" ++ cfg.swupgradeReposDir ++ "/" ++ self.release.toStr token ++ ".iso",
      some (cfg.versionValue self.sourceVersion), false, none⟩)

def componentsVer1 (t e : PyValue) : List (PyValue × Option RepoEntry) :=
  [(.str cfg.osIsoDir,
      some ⟨self.fileSource token t cfg.osIsoDir, none, true, some (.bool false)⟩),
    (.str cfg.cortxIsoDir, some ⟨self.fileSource token t cfg.cortxIsoDir, none, true, some e⟩),
    (.str cfg.cortx3rdPartyIsoDir,
      some ⟨self.fileSource token t cfg.cortx3rdPartyIsoDir, none, true, some e⟩),
    (.str cfg.cortxPythonIsoDir,
      some ⟨self.fileSource token t cfg.cortxPythonIsoDir, none, false, none⟩)]

/-- `_pillar_values_ver1` once its reads of `target_build` and `enabled` gave `t` and `e`. -/
def pillarValuesVer1 (t e : PyValue) : Dict (Option RepoEntry) :=
  Dict.ofList (self.releaseEntry token cfg :: self.componentsVer1 token cfg t e)

def componentsVer2 (t e : PyValue) : List (PyValue × Option RepoEntry) :=
  let external := cfg.sw ++ "/" ++ cfg.external
  let rpm := external ++ "/" ++ cfg.rpm
  [(.str cfg.fw, some ⟨self.fileSource token t cfg.fw, none, false, some e⟩),
    (.str cfg.os, some ⟨self.fileSource token t cfg.os, none, false, some e⟩),
    (.str cfg.cortx,
      some ⟨self.fileSource token t (cfg.sw ++ "/" ++ cfg.cortx), none, true, some e⟩),
    (.str cfg.python,
      some ⟨self.fileSource token t (external ++ "/" ++ cfg.python), none, false, none⟩),
    (.str cfg.epel7, some ⟨self.fileSource token t (rpm ++ "/" ++ cfg.epel7), none, true, none⟩),
    (.str cfg.commons,
      some ⟨self.fileSource token t (rpm ++ "/" ++ cfg.commons), none, true, none⟩),
    (.str cfg.performance,
      some ⟨self.fileSource token t (rpm ++ "/" ++ cfg.performance), none, true, none⟩)]

/-- `_pillar_values_ver2` once its reads of `target_build` and `enabled` gave `t` and `e`. -/
def pillarValuesVer2 (t e : PyValue) : Dict (Option RepoEntry) :=
  Dict.ofList (self.releaseEntry token cfg :: self.componentsVer2 token cfg t e)

/-- The remote branch of `pillar_value` once its read of `enabled` gave `e`. -/
def remotePillarValue (e : PyValue) : Dict (Option RepoEntry) :=
  let src (dir : String) := self.source.toStr token ++ "/" ++ dir
  Dict.ofList [(.str cfg.osIsoDir, some ⟨src cfg.osIsoDir, none, true, some e⟩),
    (.str cfg.cortxIsoDir, some ⟨src cfg.cortxIsoDir, none, true, some e⟩),
    (.str cfg.cortx3rdPartyIsoDir, some ⟨src cfg.cortx3rdPartyIsoDir, none, true, some e⟩),
    (.str cfg.cortxPythonIsoDir, some ⟨src cfg.cortxPythonIsoDir, none, false, none⟩)]

/-- The special branch of `pillar_value`: every version 1 component, then the release, nulled. -/
def specialPillarValue : Dict (Option RepoEntry) :=
  (Dict.ofList (cfg.ver1Components.map fun r => (PyValue.str r, none))).set self.release none

/-- `SWUpgradeRepo.pillar_value`. -/
def pillarValue : Except AttributeError (Dict (Option RepoEntry)) :=
  if self.isSpecial then .ok (self.specialPillarValue cfg)
  else if self.isRemote then do
    let e ← self.getattr "enabled"
    return self.remotePillarValue token cfg e
  else if self.sourceVersion = .version1 then do
    let t ← self.getattr "target_build"
    let e ← self.getattr "enabled"
    return self.pillarValuesVer1 token cfg t e
  else do
    let t ← self.getattr "target_build"
    let e ← self.getattr "enabled"
    return self.pillarValuesVer2 token cfg t e

end SWUpgradeRepo

/-- `SWUpgradeRemoveRepo.pillar_value`. -/
def SWUpgradeRemoveRepo.pillarValue (cfg : Config) (self : SWUpgradeRemoveRepo) :
    Dict (Option RepoEntry) :=
  Dict.ofList ((cfg.ver1Components ++ [self.release]).map fun r => (PyValue.str r, none))

theorem str_keys_nodup {l : List String} (h : l.Nodup) : (l.map PyValue.str).Nodup :=
  h.map fun _ _ h => PyValue.str.inj h

theorem Config.Distinct.ver1 {cfg : Config} (h : cfg.Distinct) : cfg.ver1Components.Nodup :=
  (List.nodup_append.mp h).1

theorem Config.Distinct.ver2 {cfg : Config} (h : cfg.Distinct) : cfg.ver2Components.Nodup :=
  (List.nodup_append.mp h).2.1

theorem Config.Distinct.fw_not_mem_ver1 {cfg : Config} (h : cfg.Distinct) :
    cfg.fw ∉ cfg.ver1Components :=
  fun hm => List.disjoint_of_nodup_append h hm (List.mem_cons_self _ _)

namespace SWUpgradeRepo

variable {token : Special → String} {cfg : Config} {self : SWUpgradeRepo} {t e : PyValue}

theorem isSpecial_of_isRemote (h : self.isRemote) : self.isSpecial = false := by
  simp_all [isRemote]

theorem isSpecial_of_isLocal (h : self.isLocal) : self.isSpecial = false := by
  simp_all [isLocal]

theorem isRemote_of_isLocal (h : self.isLocal) : self.isRemote = false := by
  simp_all [isRemote]

theorem pillarValue_remote (h : self.isRemote) (he : self.getattr "enabled" = .ok e) :
    self.pillarValue token cfg = .ok (self.remotePillarValue token cfg e) := by
  simp only [pillarValue, isSpecial_of_isRemote h, h, he, Bool.false_eq_true, if_false, if_true]
  rfl

theorem pillarValue_local (h : self.isLocal) (ht : self.getattr "target_build" = .ok t)
    (he : self.getattr "enabled" = .ok e) :
    self.pillarValue token cfg = .ok (if self.sourceVersion = .version1
      then self.pillarValuesVer1 token cfg t e else self.pillarValuesVer2 token cfg t e) := by
  simp only [pillarValue, isSpecial_of_isLocal h, isRemote_of_isLocal h, ht, he,
    Bool.false_eq_true, if_false]
  split <;> rfl

theorem remotePillarValue_eq (hd : cfg.ver1Components.Nodup) :
    self.remotePillarValue token cfg e =
      [(.str cfg.osIsoDir,
          some ⟨self.source.toStr token ++ "/" ++ cfg.osIsoDir, none, true, some e⟩),
        (.str cfg.cortxIsoDir,
          some ⟨self.source.toStr token ++ "/" ++ cfg.cortxIsoDir, none, true, some e⟩),
        (.str cfg.cortx3rdPartyIsoDir,
          some ⟨self.source.toStr token ++ "/" ++ cfg.cortx3rdPartyIsoDir, none, true, some e⟩),
        (.str cfg.cortxPythonIsoDir,
          some ⟨self.source.toStr token ++ "/" ++ cfg.cortxPythonIsoDir, none, false, none⟩)] :=
  Dict.ofList_of_nodup _ (str_keys_nodup hd)

theorem pillarValuesVer1_eq (hd : cfg.ver1Components.Nodup)
    (hr : self.release.toStr token ∉ cfg.ver1Components) :
    self.pillarValuesVer1 token cfg t e =
      [self.releaseEntry token cfg,
        (.str cfg.osIsoDir,
          some ⟨self.fileSource token t cfg.osIsoDir, none, true, some (.bool false)⟩),
        (.str cfg.cortxIsoDir, some ⟨self.fileSource token t cfg.cortxIsoDir, none, true, some e⟩),
        (.str cfg.cortx3rdPartyIsoDir,
          some ⟨self.fileSource token t cfg.cortx3rdPartyIsoDir, none, true, some e⟩),
        (.str cfg.cortxPythonIsoDir,
          some ⟨self.fileSource token t cfg.cortxPythonIsoDir, none, false, none⟩)] :=
  Dict.ofList_of_nodup _ (str_keys_nodup (List.nodup_cons.mpr ⟨hr, hd⟩))

theorem pillarValuesVer2_eq (hd : cfg.ver2Components.Nodup)
    (hr : self.release.toStr token ∉ cfg.ver2Components) :
    self.pillarValuesVer2 token cfg t e =
      [self.releaseEntry token cfg,
        (.str cfg.fw, some ⟨self.fileSource token t cfg.fw, none, false, some e⟩),
        (.str cfg.os, some ⟨self.fileSource token t cfg.os, none, false, some e⟩),
        (.str cfg.cortx,
          some ⟨self.fileSource token t (cfg.sw ++ "/" ++ cfg.cortx), none, true, some e⟩),
        (.str cfg.python, some ⟨self.fileSource token t
          (cfg.sw ++ "/" ++ cfg.external ++ "/" ++ cfg.python), none, false, none⟩),
        (.str cfg.epel7, some ⟨self.fileSource token t
          (cfg.sw ++ "/" ++ cfg.external ++ "/" ++ cfg.rpm ++ "/" ++ cfg.epel7), none, true, none⟩),
        (.str cfg.commons, some ⟨self.fileSource token t
          (cfg.sw ++ "/" ++ cfg.external ++ "/" ++ cfg.rpm ++ "/" ++ cfg.commons), none, true, none⟩),
        (.str cfg.performance, some ⟨self.fileSource token t
          (cfg.sw ++ "/" ++ cfg.external ++ "/" ++ cfg.rpm ++ "/" ++ cfg.performance),
          none, true, none⟩)] :=
  Dict.ofList_of_nodup _ (str_keys_nodup (List.nodup_cons.mpr ⟨hr, hd⟩))

/-- The layout `pillar_value` returns for a non-special source, once the public `target_build`
and `enabled` attributes hold `t` and `e`: exactly the entries of its branch, none merged. -/
theorem pillarValue_reference_layout (hd : cfg.Distinct)
    (ht : self.getattr "target_build" = .ok t) (he : self.getattr "enabled" = .ok e) :
    (self.isRemote → self.pillarValue token cfg =
      .ok [(.str cfg.osIsoDir,
          some ⟨self.source.toStr token ++ "/" ++ cfg.osIsoDir, none, true, some e⟩),
        (.str cfg.cortxIsoDir,
          some ⟨self.source.toStr token ++ "/" ++ cfg.cortxIsoDir, none, true, some e⟩),
        (.str cfg.cortx3rdPartyIsoDir,
          some ⟨self.source.toStr token ++ "/" ++ cfg.cortx3rdPartyIsoDir, none, true, some e⟩),
        (.str cfg.cortxPythonIsoDir,
          some ⟨self.source.toStr token ++ "/" ++ cfg.cortxPythonIsoDir, none, false, none⟩)]) ∧
    (self.isLocal → self.sourceVersion = .version1 →
      self.release.toStr token ∉ cfg.ver1Components → self.pillarValue token cfg =
      .ok [self.releaseEntry token cfg,
        (.str cfg.osIsoDir,
          some ⟨self.fileSource token t cfg.osIsoDir, none, true, some (.bool false)⟩),
        (.str cfg.cortxIsoDir, some ⟨self.fileSource token t cfg.cortxIsoDir, none, true, some e⟩),
        (.str cfg.cortx3rdPartyIsoDir,
          some ⟨self.fileSource token t cfg.cortx3rdPartyIsoDir, none, true, some e⟩),
        (.str cfg.cortxPythonIsoDir,
          some ⟨self.fileSource token t cfg.cortxPythonIsoDir, none, false, none⟩)]) ∧
    (self.isLocal → self.sourceVersion = .version2 →
      self.release.toStr token ∉ cfg.ver2Components → self.pillarValue token cfg =
      .ok [self.releaseEntry token cfg,
        (.str cfg.fw, some ⟨self.fileSource token t cfg.fw, none, false, some e⟩),
        (.str cfg.os, some ⟨self.fileSource token t cfg.os, none, false, some e⟩),
        (.str cfg.cortx,
          some ⟨self.fileSource token t (cfg.sw ++ "/" ++ cfg.cortx), none, true, some e⟩),
        (.str cfg.python, some ⟨self.fileSource token t
          (cfg.sw ++ "/" ++ cfg.external ++ "/" ++ cfg.python), none, false, none⟩),
        (.str cfg.epel7, some ⟨self.fileSource token t
          (cfg.sw ++ "/" ++ cfg.external ++ "/" ++ cfg.rpm ++ "/" ++ cfg.epel7), none, true, none⟩),
        (.str cfg.commons, some ⟨self.fileSource token t
          (cfg.sw ++ "/" ++ cfg.external ++ "/" ++ cfg.rpm ++ "/" ++ cfg.commons), none, true, none⟩),
        (.str cfg.performance, some ⟨self.fileSource token t
          (cfg.sw ++ "/" ++ cfg.external ++ "/" ++ cfg.rpm ++ "/" ++ cfg.performance),
          none, true, none⟩)]) := by
  refine ⟨fun hr => ?_, fun hl hv hr => ?_, fun hl hv hr => ?_⟩
  · rw [pillarValue_remote hr he, remotePillarValue_eq hd.ver1]
  · rw [pillarValue_local hl ht he, if_pos hv, pillarValuesVer1_eq hd.ver1 hr]
  · rw [pillarValue_local hl ht he, hv, if_neg nofun, pillarValuesVer2_eq hd.ver2 hr]

theorem pillarValue_reference_layout_sample :
    sampleConfig.Distinct ∧
      (sampleVer2Repo.pillarValue (fun _ => "") sampleConfig).map List.length = .ok 8 :=
  ⟨by decide, by
    rw [(@pillarValue_reference_layout (fun _ => "") sampleConfig sampleVer2Repo _ _
      (by decide) rfl rfl).2.2 rfl rfl (by decide)]
    rfl⟩

/-- As constructed, with no public attribute assigned, the sample raises on `target_build`.
With `enabled` assigned `True`, the version 1 OS repository stays disabled, and the version 2
EPEL-7 repository carries no `enabled` flag. -/
theorem pillarValue_enabled_not_uniform :
    { sampleVer2Repo with assigned := [] }.pillarValue (fun _ => "") sampleConfig =
        .error ⟨"SWUpgradeRepo", "target_build"⟩ ∧
      ({ sampleVer2Repo with sourceVersion := .version1 }.pillarValue (fun _ => "")
          sampleConfig).map (fun m : Dict (Option RepoEntry) => m.get (.str "os")) =
        .ok (some (some ⟨"file:///builds/2.0.0-1/os", none, true, some (.bool false)⟩)) ∧
      (sampleVer2Repo.pillarValue (fun _ => "") sampleConfig).map
          (fun m : Dict (Option RepoEntry) => m.get (.str "EPEL-7")) =
        .ok (some (some ⟨"file:///builds/2.0.0-1/SW/EXTERNAL/RPM/EPEL-7", none, true, none⟩)) := by
  decide

/-- A release named like a component of its layout loses its marker: the component's entry
overwrites it, and the local layout holds the component entries alone. -/
theorem pillarValue_release_shadowed (hd : cfg.Distinct) (hl : self.isLocal)
    (ht : self.getattr "target_build" = .ok t) (he : self.getattr "enabled" = .ok e) :
    (self.sourceVersion = .version1 → self.release.toStr token ∈ cfg.ver1Components →
      ∃ m, self.pillarValue token cfg = .ok m ∧ Dict.Equiv m (self.componentsVer1 token cfg t e)) ∧
    (self.sourceVersion = .version2 → self.release.toStr token ∈ cfg.ver2Components →
      ∃ m, self.pillarValue token cfg = .ok m ∧
        Dict.Equiv m (self.componentsVer2 token cfg t e)) := by
  refine ⟨fun hv hr => ⟨_, pillarValue_local hl ht he, ?_⟩,
    fun hv hr => ⟨_, pillarValue_local hl ht he, ?_⟩⟩
  · rw [if_pos hv, pillarValuesVer1]
    nth_rewrite 2 [← Dict.ofList_of_nodup (self.componentsVer1 token cfg t e)
      (str_keys_nodup hd.ver1)]
    exact Dict.ofList_cons_equiv (List.mem_map_of_mem PyValue.str hr)
  · rw [hv, if_neg nofun, pillarValuesVer2]
    nth_rewrite 2 [← Dict.ofList_of_nodup (self.componentsVer2 token cfg t e)
      (str_keys_nodup hd.ver2)]
    exact Dict.ofList_cons_equiv (List.mem_map_of_mem PyValue.str hr)

theorem pillarValue_release_shadowed_sample :
    ∃ m, { sampleVer2Repo with release := .str "OS" }.pillarValue (fun _ => "") sampleConfig =
        .ok m ∧
      Dict.Equiv m ({ sampleVer2Repo with release := .str "OS" }.componentsVer2 (fun _ => "")
        sampleConfig (.str "/builds") (.bool true)) :=
  (@pillarValue_release_shadowed (fun _ => "") sampleConfig
    { sampleVer2Repo with release := .str "OS" } _ _ (by decide) rfl rfl rfl).2 rfl (by decide)

example : ({ sampleVer2Repo with release := .str "OS" }.pillarValue (fun _ => "")
    sampleConfig).map List.length = .ok 7 := by
  decide

private theorem removal_keys (l : List String) :
    (l.map fun r => (PyValue.str r, (none : Option RepoEntry))) =
      (l.map PyValue.str).map fun k => (k, none) := by
  simp [List.map_map, Function.comp_def]

theorem removePillarValue_get (r : String) (k : PyValue) :
    (SWUpgradeRemoveRepo.pillarValue cfg ⟨r⟩).get k =
      if k ∈ (cfg.ver1Components ++ [r]).map PyValue.str then some none else none := by
  rw [SWUpgradeRemoveRepo.pillarValue, removal_keys, Dict.get_ofList_const]

/-- Removing a release gives the same mapping as the special branch of `pillar_value`. -/
theorem removePillarValue_equiv_special (r : String) (h : self.release = .str r) :
    Dict.Equiv (SWUpgradeRemoveRepo.pillarValue cfg ⟨r⟩) (self.specialPillarValue cfg) := by
  intro k
  rw [removePillarValue_get, specialPillarValue, Dict.get_set, removal_keys,
    Dict.get_ofList_const, h]
  by_cases hk : k = .str r
  · simp [hk]
  · simp [hk, Ne.symm hk]

theorem removePillarValue_equiv_special_sample :
    sampleVer2Repo.release = .str "2.0.0-1" ∧
      Dict.Equiv (SWUpgradeRemoveRepo.pillarValue sampleConfig ⟨"2.0.0-1"⟩)
        (sampleVer2Repo.specialPillarValue sampleConfig) :=
  ⟨rfl, removePillarValue_equiv_special "2.0.0-1" rfl⟩

/-- The version 2 layout of a release keeps a `FW` entry that removing the release does not
null. -/
theorem removePillarValue_misses_ver2 (hd : cfg.Distinct) (r : String) (hfw : r ≠ cfg.fw)
    (hl : self.isLocal)
    (hv : self.sourceVersion = .version2)
    (ht : self.getattr "target_build" = .ok t) (he : self.getattr "enabled" = .ok e) :
    ∃ m, self.pillarValue token cfg = .ok m ∧ m.get (.str cfg.fw) ≠ none ∧
      (SWUpgradeRemoveRepo.pillarValue cfg ⟨r⟩).get (.str cfg.fw) = none := by
  refine ⟨_, pillarValue_local hl ht he, ?_, ?_⟩
  · rw [hv, if_neg nofun]
    exact Dict.get_ofList_ne_none (by simp [componentsVer2])
  · rw [removePillarValue_get, if_neg]
    simp only [List.map_append, List.mem_append, List.mem_map, PyValue.str.injEq,
      List.mem_singleton, not_or, not_exists, not_and]
    exact ⟨fun x hx hxe => hd.fw_not_mem_ver1 (hxe ▸ hx), fun x hx => hx ▸ hfw⟩

theorem removePillarValue_misses_ver2_sample :
    ∃ m, sampleVer2Repo.pillarValue (fun _ => "") sampleConfig = .ok m ∧
      m.get (.str sampleConfig.fw) ≠ none ∧
      (SWUpgradeRemoveRepo.pillarValue sampleConfig ⟨"2.0.0-1"⟩).get (.str sampleConfig.fw) =
        none :=
  removePillarValue_misses_ver2 (by decide) "2.0.0-1" (by decide) rfl rfl rfl rfl

end SWUpgradeRepo

end Provisioner
