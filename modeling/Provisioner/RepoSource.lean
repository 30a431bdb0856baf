import Provisioner.Pathlib

/-!
# The source of a repository input

`SWUpdateRepo` and `SWUpgradeRepo` take a repository source: a local ISO file or directory, a
remote URL, or a sentinel. Construction converts the value (the `converter` of `source`),
checks it (`_check_source`, declared on `SWUpdateRepo.source`) and then, in
`__attrs_post_init__`, turns a local text into a `Path` and resolves it.

`SWUpgradeRepo` redeclares `source` with the same converter. attrs replaces the inherited
attribute, and with it the validator, so the upgrade repo's source is never checked.
-/

namespace Provisioner

/-- `s.startswith(('http://', 'https://'))`. -/
def isHttp (s : String) : Bool :=
  "http://".toList.isPrefixOf s.toList || "https://".toList.isPrefixOf s.toList

/-- `type(source) is str and source.startswith(('http://', 'https://'))`. -/
def PyValue.isHttpStr : PyValue → Bool
  | .str s => isHttp s
  | _ => false

inductive SourceError where
  | invalid (value reason : String)
  | walk (e : WalkError)
  deriving DecidableEq

section

variable (token : Special → String) (fs : FileSystem) (cwd : RealPath)

/-- The `source` converter: `None` becomes `UNCHANGED`, sentinels and paths are kept, and any
other value is rendered with `str()`. -/
def convertSource : PyValue → PyValue
  | .none => .special .unchanged
  | v => if v.isSpecial || v matches .path _ then v else .str (v.toStr token)

/-- The reason `_check_source` gives for a local path, if any. -/
def sourceReason (p : PurePath) : Except WalkError (Option String) :=
  match fs.«exists» cwd p with
  | .error e => .error e
  | .ok false => .ok (some "unexpected type of source")
  | .ok true =>
    match fs.isFile cwd p with
    | .error e => .error e
    | .ok true => .ok (if p.suffix ≠ ".iso" then some "not an iso file" else none)
    | .ok false =>
      match fs.isDir cwd p with
      | .error e => .error e
      | .ok true => .ok none
      | .ok false => .ok (some "not a file or directory")

/-- `SWUpdateRepo._check_source`, run on the converted value. -/
def checkSource (value : PyValue) : Except SourceError Unit :=
  if value.isSpecial || value.isHttpStr then .ok ()
  else
    match sourceReason fs cwd (PurePath.ofString (value.toStr token)) with
    | .ok none => .ok ()
    | .ok (some reason) => .error (.invalid (value.toStr token) reason)
    | .error e => .error (.walk e)

/-- `__attrs_post_init__` on `source`: a local text becomes a `Path`, and a `Path` is
resolved. -/
def postInitSource (source : PyValue) : Except WalkError PyValue :=
  let source : PyValue := match source with
    | .str s => if isHttp s then .str s else .path (PurePath.ofString s)
    | v => v
  match source with
  | .path p => (fs.resolve cwd p).map .path
  | v => .ok v

/-- The `source` that `SWUpdateRepo(source=v)` stores: converter, validator, then
`__attrs_post_init__`. -/
def SWUpdateRepo.initSource (v : PyValue) : Except SourceError PyValue :=
  match checkSource token fs cwd (convertSource token v) with
  | .ok () => (postInitSource fs cwd (convertSource token v)).mapError .walk
  | .error e => .error e

/-- The `source` that `SWUpgradeRepo(source=v)` stores: the redeclared attribute has the
converter and no validator. -/
def SWUpgradeRepo.initSource (v : PyValue) : Except SourceError PyValue :=
  (postInitSource fs cwd (convertSource token v)).mapError .walk

/-- The three shapes a constructed repository's `source` should take: a sentinel; a remote URL;
or an absolute resolved `Path` naming a directory or a regular file whose name ends in
`.iso`. -/
def WellFormedSource (v : PyValue) : Prop :=
  v.isSpecial ∨ (∃ s, v = .str s ∧ isHttp s) ∨
    ∃ p, v = .path p ∧ p.isAbsolute ∧ fs.resolve cwd p = .ok p ∧
      (fs.isDir cwd p = .ok true ∨ fs.isFile cwd p = .ok true ∧ ".iso".toList <:+ p.name.toList)

/-- What `SWUpdateRepo.pillar_value` returns: the source itself, or the kind of a local source
(`'iso'` or `'dir'`), or the dict `{'source': kind, 'params': self._repo_params}`. -/
inductive UpdatePillarValue where
  | source (v : PyValue)
  | kind (k : String)
  | withParams (k : String) (params : PyValue)
  deriving DecidableEq

def UpdatePillarValue.ofKind (k : String) (repoParams : PyValue) : UpdatePillarValue :=
  if repoParams.truthy then .withParams k repoParams else .kind k

/-- `SWUpdateRepo.pillar_value` for the stored `source` and `_repo_params`. A path is never
special, so `is_special() or is_remote()` holds exactly when the source is not a path; a local
source asks the filesystem `source.is_file()`, which raises on a symlink loop. -/
def SWUpdateRepo.pillarValue (source repoParams : PyValue) : Except WalkError UpdatePillarValue :=
  match source with
  | .path p => (fs.isFile cwd p).map fun isFile =>
      UpdatePillarValue.ofKind (if isFile then "iso" else "dir") repoParams
  | v => .ok (.source v)

end

/-! ## What construction stores -/

section Construction

variable {token : Special → String} {fs : FileSystem} {cwd : RealPath}

theorem convertSource_cases (v : PyValue) :
    (convertSource token v).isSpecial ∨ (∃ s, convertSource token v = .str s) ∨
      ∃ p, convertSource token v = .path p := by
  cases v with
  | special k => cases k <;> simp [convertSource, PyValue.isSpecial]
  | _ => simp [convertSource, PyValue.isSpecial]

theorem sourceReason_ok_none {p : PurePath} (h : sourceReason fs cwd p = .ok none) :
    fs.stat cwd p = .ok .dir ∨ fs.stat cwd p = .ok .file ∧ p.suffix = ".iso" := by
  rcases hs : fs.stat cwd p with e | k
  · cases e <;> simp [sourceReason, FileSystem.exists, FileSystem.isFile, FileSystem.isDir,
      FileSystem.statTest, hs] at h
  · cases k <;> simp_all [sourceReason, FileSystem.exists, FileSystem.isFile, FileSystem.isDir,
      FileSystem.statTest, Node.isFile, Node.isDir]

theorem sourceReason_of_checkSource {value : PyValue}
    (hv : (value.isSpecial || value.isHttpStr) = false) (h : checkSource token fs cwd value = .ok ()) :
    sourceReason fs cwd (PurePath.ofString (value.toStr token)) = .ok none := by
  unfold checkSource at h
  rw [if_neg (by simp [hv])] at h
  split at h
  · assumption
  · cases h
  · cases h

theorem SWUpdateRepo.initSource_ok {v v' : PyValue} (h : SWUpdateRepo.initSource token fs cwd v = .ok v') :
    checkSource token fs cwd (convertSource token v) = .ok () ∧
      postInitSource fs cwd (convertSource token v) = .ok v' := by
  unfold SWUpdateRepo.initSource at h
  split at h
  · rename_i hc
    refine ⟨hc, ?_⟩
    cases hp : postInitSource fs cwd (convertSource token v) <;> simp_all [Except.mapError]
  · cases h

theorem postInitSource_of_remote {value : PyValue} (hv : (value.isSpecial || value.isHttpStr) = true) :
    postInitSource fs cwd value = .ok value := by
  cases value <;> simp_all [postInitSource, PyValue.isSpecial, PyValue.isHttpStr]

theorem postInitSource_of_local {v : PyValue}
    (hv : ((convertSource token v).isSpecial || (convertSource token v).isHttpStr) = false) :
    postInitSource fs cwd (convertSource token v) =
      (fs.resolve cwd (PurePath.ofString ((convertSource token v).toStr token))).map .path := by
  rcases @convertSource_cases token v with hs | ⟨s, hs⟩ | ⟨p, hs⟩
  · simp [hs] at hv
  · rw [hs] at hv ⊢
    simp_all [postInitSource, PyValue.isHttpStr, PyValue.toStr]
  · rw [hs]
    simp [postInitSource, PyValue.toStr, PurePath.ofString_toString]

theorem resolve_of_sourceReason {p : PurePath} (h : sourceReason fs cwd p = .ok none) :
    ∃ r, fs.resolve cwd p = .ok r ∧ r.isAbsolute ∧ fs.resolve cwd r = .ok r ∧
      (fs.isDir cwd r = .ok true ∨
        fs.isFile cwd r = .ok true ∧ fs.stat cwd p = .ok .file ∧ p.suffix = ".iso") := by
  rcases sourceReason_ok_none h with hd | ⟨hf, hsuf⟩
  · obtain ⟨r, hr, hroot, hrr, hst⟩ := FileSystem.resolve_of_stat hd nofun
    exact ⟨r, hr, by simp [PurePath.isAbsolute, hroot], hrr, .inl (FileSystem.statTest_of_stat hst)⟩
  · obtain ⟨r, hr, hroot, hrr, hst⟩ := FileSystem.resolve_of_stat hf nofun
    exact ⟨r, hr, by simp [PurePath.isAbsolute, hroot], hrr,
      .inr ⟨FileSystem.statTest_of_stat hst, hf, hsuf⟩⟩

theorem SWUpdateRepo.initSource_cases {v v' : PyValue}
    (h : SWUpdateRepo.initSource token fs cwd v = .ok v') :
    v'.isSpecial ∨ (∃ s, v' = .str s ∧ isHttp s) ∨
      ∃ p r, v' = .path r ∧ fs.resolve cwd p = .ok r ∧ r.isAbsolute ∧ fs.resolve cwd r = .ok r ∧
        (fs.isDir cwd r = .ok true ∨
          fs.isFile cwd r = .ok true ∧ fs.stat cwd p = .ok .file ∧ p.suffix = ".iso") := by
  obtain ⟨hc, hp⟩ := SWUpdateRepo.initSource_ok h
  cases hv : ((convertSource token v).isSpecial || (convertSource token v).isHttpStr)
  · rw [postInitSource_of_local hv] at hp
    obtain ⟨r, hr, habs, hrr, hk⟩ := resolve_of_sourceReason (sourceReason_of_checkSource hv hc)
    rw [hr] at hp
    obtain rfl : PyValue.path r = v' := Except.ok.inj hp
    exact .inr (.inr ⟨_, r, rfl, hr, habs, hrr, hk⟩)
  · rw [postInitSource_of_remote hv] at hp
    obtain rfl := Except.ok.inj hp
    rcases Bool.or_eq_true_iff.mp hv with hs | hs
    · exact .inl hs
    · cases hw : convertSource token v <;> simp_all [PyValue.isHttpStr]

/-- Whatever the filesystem, a `SWUpdateRepo` stores a sentinel, a remote URL, or an absolute
resolved path that names a directory or a regular file. -/
theorem SWUpdateRepo.initSource_located {v v' : PyValue}
    (h : SWUpdateRepo.initSource token fs cwd v = .ok v') :
    v'.isSpecial ∨ (∃ s, v' = .str s ∧ isHttp s) ∨
      ∃ p, v' = .path p ∧ p.isAbsolute ∧ fs.resolve cwd p = .ok p ∧
        (fs.isDir cwd p = .ok true ∨ fs.isFile cwd p = .ok true) := by
  rcases SWUpdateRepo.initSource_cases h with hs | hs | ⟨-, r, rfl, -, habs, hrr, hd | ⟨hf, -⟩⟩
  · exact .inl hs
  · exact .inr (.inl hs)
  · exact .inr (.inr ⟨r, rfl, habs, hrr, .inl hd⟩)
  · exact .inr (.inr ⟨r, rfl, habs, hrr, .inr hf⟩)

/-- On a filesystem without symlinks, a `SWUpdateRepo` stores a well-formed source. -/
theorem SWUpdateRepo.initSource_wellFormed (hs : fs.NoSymlinks) {v v' : PyValue}
    (h : SWUpdateRepo.initSource token fs cwd v = .ok v') : WellFormedSource fs cwd v' := by
  rcases SWUpdateRepo.initSource_cases h with hsp | hr | ⟨p, r, rfl, hr, habs, hrr, hd | ⟨hf, hpf, hsuf⟩⟩
  · exact .inl hsp
  · exact .inr (.inl hr)
  · exact .inr (.inr ⟨r, rfl, habs, hrr, .inl hd⟩)
  · have hname : r.name = p.name :=
      FileSystem.resolve_name_of_stat hs hpf nofun
        (PurePath.parts_ne_nil_of_suffix (by rw [hsuf]; decide)) hr
    have hiso : ".iso".toList <:+ p.name.toList := hsuf ▸ p.suffix_isSuffix
    exact .inr (.inr ⟨r, rfl, habs, hrr, .inr ⟨hf, hname ▸ hiso⟩⟩)

/-- `pillar_value` of every `SWUpdateRepo` that construction accepts answers without raising: a
sentinel or a remote URL is written as it is, and a local source as `'iso'` when the stored path
is a regular file and as `'dir'` when it is a directory, with the params when there are any. -/
theorem SWUpdateRepo.pillarValue_of_initSource {v v' : PyValue}
    (h : SWUpdateRepo.initSource token fs cwd v = .ok v') (repoParams : PyValue) :
    ((v'.isSpecial ∨ ∃ s, v' = .str s ∧ isHttp s) ∧
        SWUpdateRepo.pillarValue fs cwd v' repoParams = .ok (.source v')) ∨
      ∃ p, v' = .path p ∧
        (fs.isFile cwd p = .ok true ∧
            SWUpdateRepo.pillarValue fs cwd v' repoParams = .ok (.ofKind "iso" repoParams) ∨
          fs.isDir cwd p = .ok true ∧
            SWUpdateRepo.pillarValue fs cwd v' repoParams = .ok (.ofKind "dir" repoParams)) := by
  rcases SWUpdateRepo.initSource_cases h with hs | ⟨s, rfl, hs⟩ | ⟨-, r, rfl, -, -, -, hd | ⟨hf, -⟩⟩
  · obtain ⟨k, rfl⟩ : ∃ k, v' = .special k := by cases v' <;> simp_all [PyValue.isSpecial]
    exact .inl ⟨.inl hs, rfl⟩
  · exact .inl ⟨.inr ⟨s, rfl, hs⟩, rfl⟩
  · obtain ⟨k, hk, hkd⟩ := FileSystem.stat_of_statTest hd
    obtain rfl : k = .dir := by cases k <;> simp_all [Node.isDir]
    have hf : fs.isFile cwd r = .ok false := FileSystem.statTest_of_stat hk
    exact .inr ⟨r, rfl, .inr ⟨hd, by rw [SWUpdateRepo.pillarValue, hf]; rfl⟩⟩
  · exact .inr ⟨r, rfl, .inl ⟨hf, by rw [SWUpdateRepo.pillarValue, hf]; rfl⟩⟩

end Construction

/-! ## Samples -/

def rootDir : RealPath := ⟨[], FileSystem.clean_nil⟩

def bareFS : FileSystem := ⟨[], nofun⟩

def isoFS : FileSystem := ⟨[(["iso"], .dir), (["iso", "a.iso"], .file)], by decide⟩

def linkFS : FileSystem :=
  ⟨[(["iso"], .dir), (["iso", "a.iso"], .symlink "/data/image"), (["data"], .dir),
    (["data", "image"], .file)], by decide⟩

theorem SWUpdateRepo.initSource_located_sample :
    SWUpdateRepo.initSource (fun _ => "") linkFS rootDir (.str "/iso/a.iso") =
        .ok (.path (PurePath.ofString "/data/image")) ∧
      ((PyValue.path (PurePath.ofString "/data/image")).isSpecial ∨
        (∃ s, PyValue.path (PurePath.ofString "/data/image") = .str s ∧ isHttp s) ∨
        ∃ p, PyValue.path (PurePath.ofString "/data/image") = .path p ∧ p.isAbsolute ∧
          linkFS.resolve rootDir p = .ok p ∧
          (linkFS.isDir rootDir p = .ok true ∨ linkFS.isFile rootDir p = .ok true)) :=
  have h : SWUpdateRepo.initSource (fun _ => "") linkFS rootDir (.str "/iso/a.iso") =
      .ok (.path (PurePath.ofString "/data/image")) := by decide
  ⟨h, SWUpdateRepo.initSource_located h⟩

theorem SWUpdateRepo.initSource_wellFormed_sample :
    isoFS.NoSymlinks ∧
      SWUpdateRepo.initSource (fun _ => "") isoFS rootDir (.str "/iso/a.iso") =
        .ok (.path (PurePath.ofString "/iso/a.iso")) ∧
      WellFormedSource isoFS rootDir (.path (PurePath.ofString "/iso/a.iso")) :=
  have hs : isoFS.NoSymlinks := by decide
  have h : SWUpdateRepo.initSource (fun _ => "") isoFS rootDir (.str "/iso/a.iso") =
      .ok (.path (PurePath.ofString "/iso/a.iso")) := by decide
  ⟨hs, h, SWUpdateRepo.initSource_wellFormed hs h⟩

theorem SWUpdateRepo.pillarValue_of_initSource_sample :
    SWUpdateRepo.initSource (fun _ => "") linkFS rootDir (.str "/iso/a.iso") =
        .ok (.path (PurePath.ofString "/data/image")) ∧
      (((PyValue.path (PurePath.ofString "/data/image")).isSpecial ∨
          ∃ s, PyValue.path (PurePath.ofString "/data/image") = .str s ∧ isHttp s) ∧
          SWUpdateRepo.pillarValue linkFS rootDir (.path (PurePath.ofString "/data/image")) .none =
            .ok (.source (.path (PurePath.ofString "/data/image"))) ∨
        ∃ p, PyValue.path (PurePath.ofString "/data/image") = .path p ∧
          (linkFS.isFile rootDir p = .ok true ∧
              SWUpdateRepo.pillarValue linkFS rootDir (.path (PurePath.ofString "/data/image")) .none =
                .ok (.ofKind "iso" .none) ∨
            linkFS.isDir rootDir p = .ok true ∧
              SWUpdateRepo.pillarValue linkFS rootDir (.path (PurePath.ofString "/data/image")) .none =
                .ok (.ofKind "dir" .none))) :=
  have h : SWUpdateRepo.initSource (fun _ => "") linkFS rootDir (.str "/iso/a.iso") =
      .ok (.path (PurePath.ofString "/data/image")) := by decide
  ⟨h, SWUpdateRepo.pillarValue_of_initSource h .none⟩

/-- `SWUpgradeRepo` stores a local path that does not exist, which `SWUpdateRepo` rejects; and
`SWUpdateRepo` stores the resolved target of a symlink of which only the name was checked. -/
theorem initSource_stores_malformed_source (token : Special → String) :
    SWUpdateRepo.initSource token bareFS rootDir (.str "/no/such.iso") =
        .error (.invalid "/no/such.iso" "unexpected type of source") ∧
      SWUpgradeRepo.initSource token bareFS rootDir (.str "/no/such.iso") =
        .ok (.path (PurePath.ofString "/no/such.iso")) ∧
      ¬ WellFormedSource bareFS rootDir (.path (PurePath.ofString "/no/such.iso")) ∧
      SWUpdateRepo.initSource token linkFS rootDir (.str "/iso/a.iso") =
        .ok (.path (PurePath.ofString "/data/image")) ∧
      ¬ WellFormedSource linkFS rootDir (.path (PurePath.ofString "/data/image")) := by
  refine ⟨rfl, rfl, ?_, rfl, ?_⟩
  · rintro (h | ⟨s, h, -⟩ | ⟨p, h, -, -, hd | ⟨hf, -⟩⟩) <;> cases h
    · exact absurd hd (by decide)
    · exact absurd hf (by decide)
  · rintro (h | ⟨s, h, -⟩ | ⟨p, h, -, -, hd | ⟨-, hn⟩⟩) <;> cases h
    · exact absurd hd (by decide)
    · exact absurd hn (by decide)


end Provisioner
