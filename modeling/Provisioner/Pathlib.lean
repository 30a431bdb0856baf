import Provisioner.Values

/-!
# POSIX paths and the filesystem

`pathlib` as the repository uses it under Python 3.6: a `PurePosixPath` read from text, its
`name` and `suffix`, and the `Path` methods that ask the filesystem: `exists`, `is_file` and
`is_dir` (through `os.stat`, which follows symlinks) and `resolve`.

A filesystem maps each absolute path, given by its components below `/`, to what sits there.
`os.stat` and `resolve` both walk a path component by component from a directory and replace a
symlink by the walk of its target. They differ where a component is missing: `stat` fails,
while the non-strict `resolve` keeps the component as written.
-/

namespace Provisioner

namespace PurePath

/-- The parts of a relative text: split on `'/'`, dropping empty parts and `"."`. -/
def partsOf (rel : List Char) : List String :=
  ((splitOn '/' rel).filter fun p => p != [] && p != ['.']).map String.mk

theorem partsOf_ok (rel : List Char) : ∀ p ∈ partsOf rel, p ≠ "" ∧ p ≠ "." ∧ '/' ∉ p.toList := by
  simp only [partsOf, List.mem_map, List.mem_filter]
  rintro _ ⟨p, ⟨hp, hne⟩, rfl⟩
  simp only [Bool.and_eq_true, bne_iff_ne] at hne
  refine ⟨fun h => hne.1 (congrArg String.data h), fun h => hne.2 (congrArg String.data h), ?_⟩
  exact not_mem_of_mem_splitOn hp

/-- The root `splitroot` reads off `n` leading slashes: exactly two are kept as `"//"`. -/
def rootOf (n : Nat) : String := if n = 0 then "" else if n = 2 then "//" else "/"

/-- `PurePosixPath(s)`. -/
def ofString (s : String) : PurePath where
  root := rootOf (s.toList.takeWhile (· == '/')).length
  parts := partsOf (s.toList.dropWhile (· == '/'))
  root_ok := by unfold rootOf; split_ifs <;> simp
  parts_ok := partsOf_ok _

/-- `path.is_absolute()`. -/
def isAbsolute (p : PurePath) : Bool := p.root != ""

/-- `path.name`: the last part, or `""` for a path of no parts. -/
def name (p : PurePath) : String := p.parts.getLast?.getD ""

/-- `path.suffix`: the name from its last `'.'` on, when that dot is neither the first nor the
last character of the name. -/
def suffix (p : PurePath) : String :=
  let cs := p.name.toList
  match cs.reverse.findIdx? (· == '.') with
  | some j =>
      if 0 < cs.length - 1 - j ∧ cs.length - 1 - j < cs.length - 1 then
        ⟨cs.drop (cs.length - 1 - j)⟩
      else ""
  | none => ""

theorem ext' {p q : PurePath} (hr : p.root = q.root) (hp : p.parts = q.parts) : p = q := by
  cases p; cases q; cases hr; cases hp; rfl

theorem suffix_isSuffix (p : PurePath) : p.suffix.toList <:+ p.name.toList := by
  dsimp only [suffix]
  split
  · split
    · exact List.drop_suffix _ _
    · exact List.nil_suffix
  · exact List.nil_suffix

theorem parts_ne_nil_of_suffix {p : PurePath} (h : p.suffix ≠ "") : p.parts ≠ [] := by
  intro hp
  simp [suffix, name, hp] at h

private theorem partsOf_join (ps : List String) (h : ∀ p ∈ ps, p ≠ "" ∧ p ≠ "." ∧ '/' ∉ p.toList) :
    partsOf (joinWith '/' (ps.map String.toList)) = ps := by
  have hsep : ∀ q ∈ ps.map String.toList, '/' ∉ q := by
    simp only [List.mem_map]
    rintro _ ⟨s, hs, rfl⟩
    exact (h s hs).2.2
  have hkeep : ∀ q ∈ ps.map String.toList, (q != [] && q != ['.']) = true := by
    simp only [List.mem_map]
    rintro _ ⟨s, hs, rfl⟩
    have h₁ : s.data ≠ [] := fun e => (h s hs).1 (String.ext e)
    have h₂ : s.data ≠ ['.'] := fun e => (h s hs).2.1 (String.ext e)
    simp [h₁, h₂]
  cases ps with
  | nil => rfl
  | cons p ps =>
      unfold partsOf
      rw [splitOn_joinWith (by simp) hsep, List.filter_eq_self.mpr hkeep, List.map_map]
      exact List.map_id'' (fun _ => rfl) _

private theorem joinWith_head_ne_slash (ps : List String)
    (h : ∀ p ∈ ps, p ≠ "" ∧ p ≠ "." ∧ '/' ∉ p.toList) :
    (joinWith '/' (ps.map String.toList)).head? ≠ some '/' := by
  cases ps with
  | nil => simp [joinWith]
  | cons p ps =>
      obtain ⟨hne, -, hsl⟩ := h p (List.mem_cons_self p ps)
      obtain ⟨c, cs, hc⟩ := List.exists_cons_of_ne_nil fun e => hne (String.ext e)
      have hhead : (joinWith '/' (p.toList :: ps.map String.toList)).head? = some c := by
        cases ps <;> simp [joinWith, show p.data = c :: cs from hc]
      rw [List.map_cons, hhead]
      intro e
      exact hsl (by rw [String.toList, hc, ← Option.some.inj e]; exact List.mem_cons_self c cs)

theorem ofString_toString (p : PurePath) : ofString p.toString = p := by
  have hhead := joinWith_head_ne_slash p.parts p.parts_ok
  generalize hj : joinWith '/' (p.parts.map String.toList) = j at hhead
  have hj' : partsOf j = p.parts := hj ▸ partsOf_join p.parts p.parts_ok
  have hslash : ∀ c cs, j = c :: cs → (c == '/') = false := by
    rintro c cs rfl
    simpa using fun e : c = '/' => hhead (by rw [e]; rfl)
  have htake : j.takeWhile (· == '/') = [] := by
    cases j with
    | nil => rfl
    | cons c cs => simp [List.takeWhile_cons, hslash c cs rfl]
  have hdrop : j.dropWhile (· == '/') = j := by
    cases j with
    | nil => rfl
    | cons c cs => simp [List.dropWhile_cons, hslash c cs rfl]
  unfold toString
  split
  · rename_i h
    obtain ⟨hr, hp⟩ := h
    exact ext' (by simp [ofString, rootOf, hr]) (by simp [ofString, hp, partsOf, splitOn])
  · rw [hj]
    rcases p.root_ok with hr | hr | hr <;>
      exact ext' (by simp [ofString, rootOf, hr, List.takeWhile_append, htake])
        (by simp [ofString, hr, List.dropWhile_append, hdrop, hj'])

end PurePath

/-- What an entry of the filesystem is. `other` is a device, a socket or a FIFO. -/
inductive Node where
  | file
  | dir
  | symlink (target : String)
  | other
  deriving DecidableEq

def entryAt (entries : List (List String × Node)) (q : List String) : Option Node :=
  if q = [] then some .dir else (entries.find? (·.1 == q)).map (·.2)

/-- `S_ISREG` of the entry's mode. -/
def Node.isFile : Node → Bool
  | .file => true
  | _ => false

/-- `S_ISDIR` of the entry's mode. -/
def Node.isDir : Node → Bool
  | .dir => true
  | _ => false

/-- A filesystem state: its entries, each in a directory. -/
structure FileSystem where
  entries : List (List String × Node)
  parent_dir : ∀ e ∈ entries, e.1 ≠ [] ∧ entryAt entries e.1.dropLast = some .dir

inductive WalkError where
  | notFound
  | notDir
  | loop
  deriving DecidableEq

/-- How deep symlink targets may nest before a walk reports a loop: the kernel's `MAXSYMLINKS`.
`resolve` detects loops with its `seen` map instead, and agrees with this bound on every chain
of fewer than 40 links. -/
def symlinkBudget : Nat := 40

def targetParts (t : String) : List String := (splitOn '/' t.toList).map String.mk

/-- The components of a resolved path: none is empty, `"."` or `".."`, and none holds `'/'`. -/
def Clean (q : List String) : Prop := ∀ s ∈ q, s ≠ "" ∧ s ≠ "." ∧ s ≠ ".." ∧ '/' ∉ s.toList

/-- A resolved absolute path, such as `os.getcwd()` returns. -/
structure RealPath where
  parts : List String
  clean : Clean parts

def RealPath.toPath (q : RealPath) : PurePath :=
  ⟨"/", q.parts, by simp, fun s hs => ⟨(q.clean s hs).1, (q.clean s hs).2.1, (q.clean s hs).2.2.2⟩⟩

namespace FileSystem

variable (fs : FileSystem)

def nodeAt (q : List String) : Option Node := entryAt fs.entries q

/-- One component `name` of a walk from the directory `cur`. A strict walk (`os.stat`) needs
`cur` to be a directory and every component to exist. `follow` walks a symlink's target with
one nesting level fewer; it is absent once the budget is spent. -/
def step (strict : Bool) (follow : Option (List String → List String → Except WalkError (List String)))
    (cur : List String) (name : String) : Except WalkError (List String) :=
  if strict ∧ fs.nodeAt cur ≠ some .dir then .error .notDir
  else if name = "" ∨ name = "." then .ok cur
  else if name = ".." then .ok cur.dropLast
  else
    match fs.nodeAt (cur ++ [name]) with
    | some (.symlink t) =>
        match follow with
        | some walkTarget => walkTarget (if t.toList.head? = some '/' then [] else cur) (targetParts t)
        | none => .error .loop
    | some _ => .ok (cur ++ [name])
    | none => if strict then .error .notFound else .ok (cur ++ [name])

def walkNames (strict : Bool) (follow : Option (List String → List String → Except WalkError (List String))) :
    List String → List String → Except WalkError (List String)
  | cur, [] => .ok cur
  | cur, name :: names =>
      match fs.step strict follow cur name with
      | .ok cur' => walkNames strict follow cur' names
      | .error e => .error e

/-- The walk of `names` from `cur`, with `fuel` nesting levels of symlinks. -/
def walk (strict : Bool) : Nat → List String → List String → Except WalkError (List String)
  | 0 => fs.walkNames strict none
  | n + 1 => fs.walkNames strict (some (walk strict n))

def start (cwd : RealPath) (p : PurePath) : List String := if p.isAbsolute then [] else cwd.parts

/-- `os.stat(path)`: the entry the path leads to, following symlinks. -/
def stat (cwd : RealPath) (p : PurePath) : Except WalkError Node :=
  match fs.walk true symlinkBudget (start cwd p) p.parts with
  | .ok q => match fs.nodeAt q with
    | some k => .ok k
    | none => .error .notFound
  | .error e => .error e

/-- `exists`, `is_file` and `is_dir` test the entry `stat` finds; a missing entry or a
non-directory on the way gives `False`, and a loop raises. -/
def statTest (test : Node → Bool) (cwd : RealPath) (p : PurePath) : Except WalkError Bool :=
  match fs.stat cwd p with
  | .ok k => .ok (test k)
  | .error .loop => .error .loop
  | .error _ => .ok false

/-- `path.exists()`. -/
def «exists» (cwd : RealPath) (p : PurePath) : Except WalkError Bool := fs.statTest (fun _ => true) cwd p

/-- `path.is_file()`. -/
def isFile (cwd : RealPath) (p : PurePath) : Except WalkError Bool := fs.statTest Node.isFile cwd p

/-- `path.is_dir()`. -/
def isDir (cwd : RealPath) (p : PurePath) : Except WalkError Bool := fs.statTest Node.isDir cwd p

/-! ## What a walk can do -/

section Walk

variable {fs} {strict : Bool} {f : Option (List String → List String → Except WalkError (List String))}
  {cur q : List String} {name : String}

theorem step_ok (h : fs.step strict f cur name = .ok q) :
    (strict → fs.nodeAt cur = some .dir) ∧
    ((name = "" ∨ name = ".") ∧ q = cur ∨ name = ".." ∧ q = cur.dropLast ∨
      (name ≠ "" ∧ name ≠ "." ∧ name ≠ "..") ∧
      ((∃ t g, fs.nodeAt (cur ++ [name]) = some (.symlink t) ∧ f = some g ∧
          g (if t.toList.head? = some '/' then [] else cur) (targetParts t) = .ok q) ∨
        (∀ t, fs.nodeAt (cur ++ [name]) ≠ some (.symlink t)) ∧
          (strict → fs.nodeAt (cur ++ [name]) ≠ none) ∧ q = cur ++ [name])) := by
  unfold step at h
  by_cases hd : strict ∧ fs.nodeAt cur ≠ some .dir
  · rw [if_pos hd] at h; cases h
  rw [if_neg hd] at h
  refine ⟨fun hs => by simpa [hs] using hd, ?_⟩
  by_cases hn : name = "" ∨ name = "."
  · rw [if_pos hn] at h; exact .inl ⟨hn, (Except.ok.inj h).symm⟩
  rw [if_neg hn] at h
  by_cases hdd : name = ".."
  · rw [if_pos hdd] at h; exact .inr (.inl ⟨hdd, (Except.ok.inj h).symm⟩)
  rw [if_neg hdd] at h
  refine .inr (.inr ⟨⟨fun e => hn (.inl e), fun e => hn (.inr e), hdd⟩, ?_⟩)
  rcases hk : fs.nodeAt (cur ++ [name]) with _ | k
  · simp only [hk] at h
    cases strict
    · exact .inr ⟨by simp, by simp, (Except.ok.inj h).symm⟩
    · cases h
  · cases k with
    | symlink t =>
        simp only [hk] at h
        cases f with
        | none => cases h
        | some g => exact .inl ⟨t, g, rfl, rfl, h⟩
    | _ => simp only [hk] at h; exact .inr ⟨by simp, by simp, (Except.ok.inj h).symm⟩

theorem walkNames_cons_ok {names : List String}
    (h : fs.walkNames strict f cur (name :: names) = .ok q) :
    ∃ c, fs.step strict f cur name = .ok c ∧ fs.walkNames strict f c names = .ok q := by
  unfold walkNames at h
  split at h
  · exact ⟨_, ‹_›, h⟩
  · cases h

theorem walkNames_cons_of_step {names c : List String} (h : fs.step strict f cur name = .ok c) :
    fs.walkNames strict f cur (name :: names) = fs.walkNames strict f c names := by
  simp only [walkNames, h]

theorem targetParts_no_slash (t : String) : ∀ s ∈ targetParts t, '/' ∉ s.toList := by
  simp only [targetParts, List.mem_map]
  rintro _ ⟨p, hp, rfl⟩
  exact not_mem_of_mem_splitOn hp

theorem clean_nil : Clean [] := by simp [Clean]

private theorem walkNames_clean {names : List String}
    (hf : ∀ g, f = some g → ∀ c ns r, Clean c → (∀ s ∈ ns, '/' ∉ s.toList) → g c ns = .ok r → Clean r)
    (hcur : Clean cur) (hnames : ∀ s ∈ names, '/' ∉ s.toList)
    (h : fs.walkNames strict f cur names = .ok q) : Clean q := by
  induction names generalizing cur with
  | nil => cases h; exact hcur
  | cons name names ih =>
      obtain ⟨c, hs, hw⟩ := walkNames_cons_ok h
      refine ih ?_ (fun s hs => hnames s (List.mem_cons_of_mem _ hs)) hw
      obtain ⟨-, ⟨-, rfl⟩ | ⟨-, rfl⟩ | ⟨hname, ⟨t, g, -, rfl, hg⟩ | ⟨-, -, rfl⟩⟩⟩ := step_ok hs
      · exact hcur
      · exact fun s hs => hcur s (List.dropLast_subset _ hs)
      · exact hf g rfl _ _ _ (by split; exacts [clean_nil, hcur]) (targetParts_no_slash t) hg
      · intro s hs
        rcases List.mem_append.mp hs with hs | hs
        · exact hcur s hs
        · rw [List.mem_singleton.mp hs]
          exact ⟨hname.1, hname.2.1, hname.2.2, hnames name (List.mem_cons_self _ _)⟩

theorem walk_clean (n : Nat) : ∀ {cur names q : List String}, Clean cur →
    (∀ s ∈ names, '/' ∉ s.toList) → fs.walk strict n cur names = .ok q → Clean q := by
  induction n with
  | zero => exact walkNames_clean (by simp)
  | succ n ih => exact walkNames_clean (by rintro g ⟨⟩ c ns r; exact ih)

theorem step_nonstrict {f' : Option (List String → List String → Except WalkError (List String))}
    {c : List String}
    (hf : ∀ g, f = some g → ∃ g', f' = some g' ∧ ∀ s ns r, g s ns = .ok r → g' s ns = .ok r)
    (h : fs.step true f cur name = .ok c) : fs.step false f' cur name = .ok c := by
  obtain ⟨-, ⟨hn, rfl⟩ | ⟨hn, rfl⟩ | ⟨⟨h₁, h₂, h₃⟩, ⟨t, g, ht, rfl, hg⟩ | ⟨hns, hnone, rfl⟩⟩⟩ :=
    step_ok h
  · simp [step, hn]
  · simp [step, hn]
  · obtain ⟨g', rfl, hg'⟩ := hf g rfl
    simp only [step, h₁, h₂, h₃, ht, or_self, and_false, if_false, Bool.false_eq_true, false_and]
    exact hg' _ _ _ hg
  · obtain ⟨k, hk⟩ := Option.ne_none_iff_exists'.mp (hnone rfl)
    cases k <;> simp_all [step]

private theorem walkNames_nonstrict {f' : Option (List String → List String → Except WalkError (List String))}
    {names : List String}
    (hf : ∀ g, f = some g → ∃ g', f' = some g' ∧ ∀ s ns r, g s ns = .ok r → g' s ns = .ok r)
    (h : fs.walkNames true f cur names = .ok q) : fs.walkNames false f' cur names = .ok q := by
  induction names generalizing cur with
  | nil => exact h
  | cons name names ih =>
      obtain ⟨c, hs, hw⟩ := walkNames_cons_ok h
      rw [walkNames_cons_of_step (step_nonstrict hf hs)]
      exact ih hw

theorem walk_nonstrict_of_strict (n : Nat) : ∀ {cur names q : List String},
    fs.walk true n cur names = .ok q → fs.walk false n cur names = .ok q := by
  induction n with
  | zero => exact walkNames_nonstrict (by simp)
  | succ n ih => exact walkNames_nonstrict (by rintro g ⟨⟩; exact ⟨_, rfl, fun _ _ _ => ih⟩)

end Walk

/-! ## Entries sit in directories -/

section Chain

variable {fs}

theorem nodeAt_dropLast {q : List String} (h : fs.nodeAt q ≠ none) :
    fs.nodeAt q.dropLast = some .dir := by
  by_cases hq : q = []
  · subst hq; rfl
  · have h' : (fs.entries.find? (·.1 == q)).map (·.2) ≠ none := by
      simpa only [nodeAt, entryAt, if_neg hq] using h
    obtain ⟨e, he⟩ := Option.ne_none_iff_exists'.mp
      fun e : fs.entries.find? (·.1 == q) = none => h' (by rw [e]; rfl)
    have heq : e.1 = q := by simpa using List.find?_some he
    exact heq ▸ (fs.parent_dir e (List.mem_of_find?_eq_some he)).2

def DirChain (q : List String) : Prop := ∀ i < q.length, fs.nodeAt (q.take i) = some .dir

theorem dirChain_of_nodeAt {q : List String} (h : fs.nodeAt q ≠ none) : fs.DirChain q := by
  induction q using List.reverseRecOn with
  | nil => intro i hi; simp at hi
  | append_singleton q x ih =>
      have hq : fs.nodeAt q = some .dir := by simpa using nodeAt_dropLast h
      intro i hi
      rw [List.length_append, List.length_singleton] at hi
      rcases Nat.lt_succ_iff_lt_or_eq.mp hi with hi | rfl
      · rw [List.take_append_of_le_length hi.le]
        exact ih (by simp [hq]) i hi
      · rw [List.take_left]
        exact hq

theorem step_of_entry {strict : Bool} {f : Option (List String → List String → Except WalkError (List String))}
    {cur : List String} {name : String} {k : Node} (hcur : fs.nodeAt cur = some .dir)
    (hname : name ≠ "" ∧ name ≠ "." ∧ name ≠ "..") (hk : fs.nodeAt (cur ++ [name]) = some k)
    (hks : ∀ t, k ≠ .symlink t) : fs.step strict f cur name = .ok (cur ++ [name]) := by
  cases k <;> simp_all [step]

private theorem walkNames_self {strict : Bool}
    {f : Option (List String → List String → Except WalkError (List String))} {c r : List String}
    (hr : Clean r) (hchain : fs.DirChain (c ++ r))
    (hlast : ∃ k, fs.nodeAt (c ++ r) = some k ∧ ∀ t, k ≠ .symlink t) :
    fs.walkNames strict f c r = .ok (c ++ r) := by
  induction r generalizing c with
  | nil => simp [walkNames]
  | cons x r ih =>
      have hc : fs.nodeAt c = some .dir := by
        simpa using hchain c.length (by simp)
      have hx : fs.nodeAt (c ++ [x]) = some .dir ∨ r = [] := by
        rcases r with _ | ⟨y, r⟩
        · exact .inr rfl
        · rw [show c ++ x :: y :: r = (c ++ [x]) ++ (y :: r) by simp] at hchain
          have h := hchain (c ++ [x]).length (by simp)
          rw [List.take_left] at h
          exact .inl h
      obtain ⟨k, hk, hks⟩ : ∃ k, fs.nodeAt (c ++ [x]) = some k ∧ ∀ t, k ≠ .symlink t := by
        rcases hx with hx | rfl
        · exact ⟨_, hx, nofun⟩
        · exact hlast
      have hxc := hr x (List.mem_cons_self x r)
      rw [walkNames_cons_of_step (step_of_entry hc ⟨hxc.1, hxc.2.1, hxc.2.2.1⟩ hk hks)]
      simpa using ih (c := c ++ [x]) (fun s hs => hr s (List.mem_cons_of_mem x hs))
        (by simpa using hchain) (by simpa using hlast)

theorem walk_self {strict : Bool} (n : Nat) {q : List String} (hq : Clean q)
    (hk : ∃ k, fs.nodeAt q = some k ∧ ∀ t, k ≠ .symlink t) : fs.walk strict n [] q = .ok q := by
  have hchain : fs.DirChain q := dirChain_of_nodeAt (by obtain ⟨k, hk, -⟩ := hk; simp [hk])
  cases n <;> exact walkNames_self hq hchain hk

end Chain


theorem start_clean (cwd : RealPath) (p : PurePath) : Clean (start cwd p) := by
  unfold start; split; exacts [clean_nil, cwd.clean]

/-- `path.resolve()` (non-strict): missing components are kept as written, and the result is
absolute. -/
def resolve (cwd : RealPath) (p : PurePath) : Except WalkError PurePath :=
  match h : fs.walk false symlinkBudget (start cwd p) p.parts with
  | .ok q => .ok (RealPath.toPath ⟨q, walk_clean symlinkBudget (start_clean cwd p) (fun s hs => (p.parts_ok s hs).2.2) h⟩)
  | .error e => .error e

def NoSymlinks : Prop := ∀ e ∈ fs.entries, ¬ e.2 matches .symlink _

instance : Decidable fs.NoSymlinks := inferInstanceAs (Decidable (∀ e ∈ fs.entries, _))

section Stat

variable {fs} {cwd : RealPath} {p : PurePath}

theorem resolve_of_walk {q : List String}
    (h : fs.walk false symlinkBudget (start cwd p) p.parts = .ok q) :
    ∃ r : PurePath, fs.resolve cwd p = .ok r ∧ r.root = "/" ∧ r.parts = q := by
  unfold resolve
  split
  · rename_i q' h'
    rw [h] at h'
    cases h'
    exact ⟨_, rfl, rfl, rfl⟩
  · rename_i e h'
    rw [h] at h'
    cases h'

theorem stat_ok {k : Node} (h : fs.stat cwd p = .ok k) :
    ∃ q, fs.walk true symlinkBudget (start cwd p) p.parts = .ok q ∧ fs.nodeAt q = some k := by
  unfold stat at h
  split at h
  · rename_i q hq
    split at h
    · cases h
      exact ⟨q, hq, ‹_›⟩
    · cases h
  · cases h

theorem stat_of_walk {q : List String} {k : Node}
    (h : fs.walk true symlinkBudget (start cwd p) p.parts = .ok q) (hk : fs.nodeAt q = some k) :
    fs.stat cwd p = .ok k := by
  simp [stat, h, hk]

theorem statTest_of_stat {test : Node → Bool} {k : Node} (h : fs.stat cwd p = .ok k) :
    fs.statTest test cwd p = .ok (test k) := by
  simp [statTest, h]

theorem stat_of_statTest {test : Node → Bool} (h : fs.statTest test cwd p = .ok true) :
    ∃ k, fs.stat cwd p = .ok k ∧ test k = true := by
  unfold statTest at h
  split at h
  · exact ⟨_, ‹_›, Except.ok.inj h⟩
  · cases h
  · cases h

theorem resolve_of_stat {k : Node} (h : fs.stat cwd p = .ok k) (hk : ∀ t, k ≠ .symlink t) :
    ∃ r : PurePath, fs.resolve cwd p = .ok r ∧ r.root = "/" ∧ fs.resolve cwd r = .ok r ∧
      fs.stat cwd r = .ok k := by
  obtain ⟨q, hw, hq⟩ := stat_ok h
  have hclean : Clean q :=
    walk_clean symlinkBudget (start_clean cwd p) (fun s hs => (p.parts_ok s hs).2.2) hw
  obtain ⟨r, hr, hroot, hparts⟩ := resolve_of_walk (walk_nonstrict_of_strict symlinkBudget hw)
  have hstart : start cwd r = [] := by simp [start, PurePath.isAbsolute, hroot]
  have hself : fs.walk true symlinkBudget (start cwd r) r.parts = .ok q := by
    rw [hstart, hparts]
    exact walk_self symlinkBudget hclean ⟨k, hq, hk⟩
  obtain ⟨r', hr', hroot', hparts'⟩ := resolve_of_walk (walk_nonstrict_of_strict symlinkBudget hself)
  refine ⟨r, hr, hroot, ?_, stat_of_walk hself hq⟩
  rw [hr', PurePath.ext' (hroot'.trans hroot.symm) (hparts'.trans hparts.symm)]

theorem nodeAt_ne_symlink (hs : fs.NoSymlinks) (q : List String) (t : String) :
    fs.nodeAt q ≠ some (.symlink t) := by
  intro h
  by_cases hq : q = []
  · simp [nodeAt, entryAt, hq] at h
  · simp only [nodeAt, entryAt, if_neg hq, Option.map_eq_some'] at h
    obtain ⟨e, he, het⟩ := h
    exact hs e (List.mem_of_find?_eq_some he) (by rw [het])

private theorem walkNames_getLast (hs : fs.NoSymlinks)
    {f : Option (List String → List String → Except WalkError (List String))}
    {cur q names : List String} (hne : names ≠ []) (h : fs.walkNames true f cur names = .ok q)
    (hq : fs.nodeAt q ≠ some .dir) : q.getLast? = names.getLast? := by
  induction names generalizing cur with
  | nil => exact absurd rfl hne
  | cons name names ih =>
      obtain ⟨c, hstep, hw⟩ := walkNames_cons_ok h
      cases names with
      | cons n ns => rw [ih (List.cons_ne_nil _ _) hw, List.getLast?_cons_cons]
      | nil =>
          obtain rfl : c = q := Except.ok.inj hw
          obtain ⟨hdir, ⟨-, rfl⟩ | ⟨-, rfl⟩ | ⟨-, ⟨t, -, ht, -⟩ | ⟨-, -, rfl⟩⟩⟩ := step_ok hstep
          · exact absurd (hdir rfl) hq
          · exact absurd (nodeAt_dropLast (by simp [hdir rfl])) hq
          · exact absurd ht (nodeAt_ne_symlink hs _ _)
          · simp

theorem resolve_name_of_stat (hs : fs.NoSymlinks) {k : Node} {r : PurePath}
    (h : fs.stat cwd p = .ok k) (hk : k ≠ .dir) (hp : p.parts ≠ []) (hr : fs.resolve cwd p = .ok r) :
    r.name = p.name := by
  obtain ⟨q, hw, hq⟩ := stat_ok h
  obtain ⟨r', hr', -, hparts⟩ := resolve_of_walk (walk_nonstrict_of_strict symlinkBudget hw)
  obtain rfl : r' = r := Except.ok.inj (hr'.symm.trans hr)
  have hlast : q.getLast? = p.parts.getLast? := by
    cases symlinkBudget <;>
      exact walkNames_getLast hs hp hw (by rw [hq]; exact fun e => hk (Option.some.inj e))
  simp only [PurePath.name, hparts, hlast]

end Stat

end FileSystem

end Provisioner
