import Provisioner.Argparse

/-!
# Component configs

`ReleaseCfg` and `EOSCoreCfg` of the setup utilities. Each adds its options to a shared
`ArgumentParser`, loads its YAML defaults from `cfg_path`, and in `process_inputs` edits them from
the command line: the format flag shows them, the file option merges a YAML file over them,
`interactive` prompts for some of their values, and `--release` (of `ReleaseCfg` only) sets the
target build.

`open`, `yaml.load` and `input` are outside the source. The file system is a function from a path
to the document the file holds, `None` where opening or loading it fails; the operator's answers
are a list, one per prompt, ending where `input` meets the end of its input. `dict.update` is
CPython's: a mapping is merged key by key, any other iterable is read as a sequence of pairs set
one by one, and an element that is not a pair raises with the pairs before it already set.
-/

namespace Provisioner

open Argparse

/-- A YAML document as `yaml.load` returns it: a scalar, a mapping with its keys in order, or a
sequence. -/
inductive Yaml where
  | scalar (v : PyValue)
  | map (entries : List (PyValue × Yaml))
  | seq (items : List Yaml)

inductive CfgError where
  /-- `Exception`: the class cannot be initialized without an argparse object. -/
  | noParser
  | add (e : AddError)
  /-- `parse_args` exits. -/
  | parse (e : ParseError)
  /-- `open` or `yaml.load` of the file fails. -/
  | load (path : PyValue)
  | attributeError (name : String)
  | keyError (key : PyValue)
  /-- `TypeError`: a subscript by a `str` of a value that is not a mapping, or an `update` element
  that is not iterable or whose key is not hashable. -/
  | typeError
  /-- `ValueError`: an `update` element that is not a pair. -/
  | valueError
  /-- `EOFError` from `input`. -/
  | eofError

namespace Yaml

/-- `d[k]`. -/
def getItem : Yaml → PyValue → Except CfgError Yaml
  | .map es, k => match Dict.get es k with
    | some v => .ok v
    | none => .error (.keyError k)
  | _, _ => .error .typeError

/-- `d[group][key] = v`: the mapping `d[group]` is changed in place. -/
def setIn (d : Yaml) (group key : String) (v : Yaml) : Except CfgError Yaml :=
  match d with
  | .map es => match Dict.get es (.str group) with
    | some (.map inner) => .ok (.map (Dict.set es (.str group) (.map (Dict.set inner (.str key) v))))
    | some _ => .error .typeError
    | none => .error (.keyError (.str group))
  | _ => .error .typeError

/-- What iterating a document gives, as `PySequence_Fast` lists it: a sequence its items, a
mapping its keys, a `str` its one-character strings; `none` for a value that is not iterable. -/
def iterItems : Yaml → Option (List Yaml)
  | .seq items => some items
  | .map es => some (es.map fun e => .scalar e.1)
  | .scalar (.str s) => some (s.toList.map fun c => .scalar (.str (String.singleton c)))
  | .scalar _ => none

/-- `PyDict_MergeFromSeq2`: each element of the sequence, a pair with a hashable key, sets its
value in place; the first element that is not raises, with the pairs before it set. -/
def mergeFromSeq2 (es : List (PyValue × Yaml)) : List Yaml → List (PyValue × Yaml) × Option CfgError
  | [] => (es, none)
  | item :: items => match item.iterItems with
    | some [.scalar k, v] => mergeFromSeq2 (Dict.set es k v) items
    | some [_, _] | none => (es, some .typeError)
    | some _ => (es, some .valueError)

/-- `d.update(new)` on the options `d`: a mapping `new` has each of its keys in order replace the
value of a key `d` has, in place, or be appended; any other iterable is merged as a sequence of
pairs. -/
def update (new : Yaml) : EStateM CfgError Yaml Unit := fun d =>
  match d, new with
  | .map es, .map n => .ok () (.map (n.foldl (fun d e => Dict.set d e.1 e.2) es))
  | .map es, _ => match new.iterItems with
    | none => .error .typeError d
    | some items => match mergeFromSeq2 es items with
      | (es', none) => .ok () (.map es')
      | (es', some e) => .error e (.map es')
  | _, _ => .error (.attributeError "update") d

def pairPrefix : List Yaml → List (PyValue × Yaml)
  | [] => []
  | item :: items => match item.iterItems with
    | some [.scalar k, v] => (k, v) :: pairPrefix items
    | _ => []

def updatePairs : Yaml → List (PyValue × Yaml)
  | .map n => n
  | new => (new.iterItems.map pairPrefix).getD []

def get? : Yaml → PyValue → Option Yaml
  | .map es, k => Dict.get es k
  | _, _ => none

end Yaml

/-- `program_args.<name>`. -/
def nsAttr (ns : Dict PyValue) (name : String) : Except CfgError PyValue :=
  match ns.get (.str name) with
  | some v => .ok v
  | none => .error (.attributeError name)

/-- `yaml.load(open(path), Loader=yaml.FullLoader)` in the file system `fs`. -/
def loadYaml (fs : PyValue → Option Yaml) (path : PyValue) : Except CfgError Yaml :=
  match fs path with
  | some d => .ok d
  | none => .error (.load path)

/-! ## Methods on the options

A method of a component runs on the options it holds; a raise does not undo what the method
changed before it. -/

def liftCfg {α : Type} : Except CfgError α → EStateM CfgError Yaml α
  | .ok a => pure a
  | .error e => throw e

/-- `self.__options[group][key] = v`. -/
def assignIn (group key : String) (v : Yaml) : EStateM CfgError Yaml Unit := fun d =>
  match d.setIn group key v with
  | .ok d' => .ok () d'
  | .error e => .error e d

/-- Loading a file and `self.__options.update(new_options)`. -/
def mergeFile (fs : PyValue → Option Yaml) (path : PyValue) : EStateM CfgError Yaml Unit := fun d =>
  match loadYaml fs path with
  | .ok new => Yaml.update new d
  | .error e => .error e d

/-- The prompts of `interactive`, one per key of `self.__options[group]`: an empty answer keeps
the value, any other is stored as a `str`. An answer is stored before the next prompt. -/
def promptKeys (group : String) : List String → List String → EStateM CfgError Yaml Unit
  | [], _ => pure ()
  | key :: keys, answers => fun d =>
    match d.getItem (.str group) >>= (·.getItem (.str key)), answers with
    | .error e, _ => .error e d
    | .ok _, [] => .error .eofError d
    | .ok cur, answer :: rest =>
      match assignIn group key (if answer = "" then cur else .scalar (.str answer)) d with
      | .ok _ d' => promptKeys group keys rest d'
      | .error e d' => .error e d'

/-- `process_inputs` of a component once `parse_args` has returned `ns`: the format flag stored
at `fmtDest` shows the options; a file named at `fileDest` is merged over them; `interactive`
prompts for the keys of `group`; and `final` decides the rest. -/
def processParsed (fmtDest fileDest group : String) (keys : List String)
    (final : Dict PyValue → EStateM CfgError Yaml Bool) (fs : PyValue → Option Yaml)
    (answers : List String) (ns : Dict PyValue) : EStateM CfgError Yaml Bool := do
  if (← liftCfg (nsAttr ns fmtDest)).truthy then pure false
  else
    let file ← liftCfg (nsAttr ns fileDest)
    if file.truthy then do
      mergeFile fs file
      pure true
    else if (← liftCfg (nsAttr ns "interactive")).truthy then do
      promptKeys group keys answers
      pure true
    else final ns

section

variable {τ : Type}

/-- `add_argument` for each argument, in order. -/
def addAll : List (Action τ) → List (String × Kwargs τ) → Except AddError (List (Action τ))
  | parser, [] => .ok parser
  | parser, (name, kw) :: rest => match addArgument parser name kw with
    | .ok parser' => addAll parser' rest
    | .error e => .error e

/-- The constructor of a component with the given arguments: the parser with the arguments added
and the defaults loaded from `cfg_path`; `none` is an `arg_parser` that is not truthy. -/
def cfgInit (arguments : List (String × Kwargs τ)) (fs : PyValue → Option Yaml) :
    Option (List (Action τ)) → String → Except CfgError (List (Action τ) × Yaml)
  | none, _ => .error .noParser
  | some parser, cfgPath => do
    let parser' ← (addAll parser arguments).mapError .add
    let options ← loadYaml fs (.str cfgPath)
    pure (parser', options)

/-- `save`: the file at `cfg_path` holds the options. -/
def cfgSave (fs : PyValue → Option Yaml) (cfgPath : String) (options : Yaml) : PyValue → Option Yaml :=
  fun path => if path = .str cfgPath then some options else fs path

/-! ## `ReleaseCfg` -/

/-- The arguments of `ReleaseCfg.__setup_args`. -/
def ReleaseCfg.arguments : List (String × Kwargs τ) :=
  [("--release", ⟨"store", none, none, none, none, none,
      "Release version as required in CI repo, e.g. EES_Sprint1", none, none⟩),
   ("--release-file", ⟨"store", none, some "release_file", none, none, none,
      "Yaml file with release configs", none, none⟩),
   ("--show-release-file-format", ⟨"store_true", none, some "show_release_file_format", none,
      none, none, "Display Yaml file format for release configs", none, none⟩)]

def ReleaseCfg.setupArgs (parser : List (Action τ)) : Except AddError (List (Action τ)) :=
  addAll parser ReleaseCfg.arguments

/-- `ReleaseCfg(arg_parser, cfg_path)`. -/
def ReleaseCfg.init (fs : PyValue → Option Yaml) :
    Option (List (Action τ)) → String → Except CfgError (List (Action τ) × Yaml) :=
  cfgInit ReleaseCfg.arguments fs

/-- The last branch of `ReleaseCfg.process_inputs`: `--release` sets the target build. -/
def ReleaseCfg.final (ns : Dict PyValue) : EStateM CfgError Yaml Bool := do
  let release ← liftCfg (nsAttr ns "release")
  if release.truthy then do
    assignIn "eos_release" "target_build" (.scalar release)
    pure true
  else pure false

/-- `ReleaseCfg.process_inputs(arg_parser)` on the command line `argv`. -/
def ReleaseCfg.processInputs (run : τ → String → PyValue) (fs : PyValue → Option Yaml)
    (answers : List String) (parser : List (Action τ)) (argv : List Arg) :
    EStateM CfgError Yaml Bool := do
  let ns ← liftCfg ((parseArgs run parser argv).mapError .parse)
  processParsed "show_release_file_format" "release_file" "eos_release" ["target_build"]
    ReleaseCfg.final fs answers ns

/-! ## `EOSCoreCfg` -/

/-- The arguments of `EOSCoreCfg.__setup_args`. -/
def EOSCoreCfg.arguments : List (String × Kwargs τ) :=
  [("--eoscore-file", ⟨"store", none, some "eoscore_file", none, none, none,
      "Yaml file with eoscore configs", none, none⟩),
   ("--show-eoscore-file-format", ⟨"store_true", none, some "show_eoscore_file_format", none,
      none, none, "Display Yaml file format for eoscore configs", none, none⟩)]

def EOSCoreCfg.setupArgs (parser : List (Action τ)) : Except AddError (List (Action τ)) :=
  addAll parser EOSCoreCfg.arguments

/-- `EOSCoreCfg(arg_parser, cfg_path)`. -/
def EOSCoreCfg.init (fs : PyValue → Option Yaml) :
    Option (List (Action τ)) → String → Except CfgError (List (Action τ) × Yaml) :=
  cfgInit EOSCoreCfg.arguments fs

def EOSCoreCfg.keys : List String :=
  ["MERO_M0D_MAX_RPC_MSG_SIZE", "MERO_M0D_BELOG_SIZE", "MERO_M0D_IOS_BESEG_SIZE"]

/-- `EOSCoreCfg.process_inputs(arg_parser)` on the command line `argv`. -/
def EOSCoreCfg.processInputs (run : τ → String → PyValue) (fs : PyValue → Option Yaml)
    (answers : List String) (parser : List (Action τ)) (argv : List Arg) :
    EStateM CfgError Yaml Bool := do
  let ns ← liftCfg ((parseArgs run parser argv).mapError .parse)
  processParsed "show_eoscore_file_format" "eoscore_file" "eoscore" EOSCoreCfg.keys
    (fun _ => pure false) fs answers ns

end

/-! ## What `process_inputs` does with a command line -/

/-- What `process_inputs` does, read off the command line: with the format flag `fmtOpt` it leaves
the options alone; else a non-empty file given to `fileOpt` is merged over them; else
`interactive`, as the parse holds it, must exist, and prompts when it is truthy; else `final`. -/
def expectedInputs (fmtOpt fileOpt group : String) (keys : List String)
    (final : EStateM CfgError Yaml Bool) (fs : PyValue → Option Yaml) (answers : List String)
    (argv : List Arg) (interactive : Option PyValue) : EStateM CfgError Yaml Bool :=
  if .opt fmtOpt none ∈ argv then pure false
  else match (lastToken fileOpt argv).filter (· ≠ "") with
    | some file => do
      mergeFile fs (.str file)
      pure true
    | none => match interactive with
      | none => throw (.attributeError "interactive")
      | some v =>
        if v.truthy then do
          promptKeys group keys answers
          pure true
        else final

/-- What `ReleaseCfg.process_inputs` does with a command line; last, a non-empty `--release` sets
the target build. -/
def ReleaseCfg.expected (fs : PyValue → Option Yaml) (answers : List String) (argv : List Arg)
    (interactive : Option PyValue) : EStateM CfgError Yaml Bool :=
  expectedInputs "--show-release-file-format" "--release-file" "eos_release" ["target_build"]
    (match (lastToken "--release" argv).filter (· ≠ "") with
      | some release => do
        assignIn "eos_release" "target_build" (.scalar (.str release))
        pure true
      | none => pure false)
    fs answers argv interactive

def EOSCoreCfg.expected (fs : PyValue → Option Yaml) (answers : List String) (argv : List Arg)
    (interactive : Option PyValue) : EStateM CfgError Yaml Bool :=
  expectedInputs "--show-eoscore-file-format" "--eoscore-file" "eoscore" EOSCoreCfg.keys
    (pure false) fs answers argv interactive

@[simp] theorem liftCfg_ok {α : Type} (a : α) : liftCfg (.ok a) = pure a := rfl

@[simp] theorem liftCfg_error {α : Type} (e : CfgError) :
    (liftCfg (.error e) : EStateM CfgError Yaml α) = throw e := rfl

@[simp] theorem cfg_throw_bind {α β : Type} (e : CfgError) (f : α → EStateM CfgError Yaml β) :
    (throw e >>= f) = throw e := rfl

@[simp] theorem truthy_bool (b : Bool) : (PyValue.bool b).truthy = b := rfl

@[simp] theorem truthy_lastToken (o : String) (argv : List Arg) :
    (((lastToken o argv).map PyValue.str).getD .none).truthy =
      ((lastToken o argv).filter (· ≠ "")).isSome := by
  cases lastToken o argv with
  | none => rfl
  | some t => by_cases ht : t = "" <;> simp [PyValue.truthy, Option.filter, ht]

theorem processParsed_eq {fmtDest fileDest fmtOpt fileOpt group : String} {keys : List String}
    {final : Dict PyValue → EStateM CfgError Yaml Bool} {fs : PyValue → Option Yaml}
    {answers : List String} {ns : Dict PyValue} {argv : List Arg}
    (hfmt : ns.get (.str fmtDest) = some (.bool (decide (.opt fmtOpt none ∈ argv))))
    (hfile : ns.get (.str fileDest) = some (((lastToken fileOpt argv).map .str).getD .none)) :
    processParsed fmtDest fileDest group keys final fs answers ns =
      expectedInputs fmtOpt fileOpt group keys (final ns) fs answers argv
        (ns.get (.str "interactive")) := by
  simp only [processParsed, expectedInputs, nsAttr, hfmt, hfile, liftCfg_ok, pure_bind, truthy_bool,
    truthy_lastToken, decide_eq_true_eq]
  by_cases hf : Arg.opt fmtOpt none ∈ argv
  · simp [hf]
  · simp only [hf, if_false]
    rcases hl : (lastToken fileOpt argv).filter (· ≠ "") with _ | file
    · simp only [Option.isSome_none, Bool.false_eq_true, if_false]
      cases ns.get (.str "interactive") <;> simp
    · have hs : lastToken fileOpt argv = some file := (Option.filter_eq_some.mp hl).1
      simp [hs]

/-! ## The arguments of a component in a shared parser -/

section

variable {τ : Type}

/-- A component's arguments are installed in a parser when each owns its option string there. -/
def Installs (arguments : List (String × Kwargs τ)) (actions : List (Action τ)) : Prop :=
  ∀ e ∈ arguments, Owns actions e.1 (Action.ofCall e.1 e.2)

theorem addAll_of_fresh {args : List (String × Kwargs τ)} (hnd : (args.map (·.1)).Nodup)
    (hok : ∀ e ∈ args, addArgumentError [] e.1 e.2 = none) :
    ∀ {parser : List (Action τ)}, (∀ e ∈ args, parser.any (·.optionStrings.contains e.1) = false) →
      addAll parser args = .ok (parser ++ args.map fun e => Action.ofCall e.1 e.2) := by
  induction args with
  | nil => intro parser _; simp [addAll]
  | cons e args ih =>
      intro parser hfresh
      obtain ⟨name, kw⟩ := e
      rw [List.map_cons, List.nodup_cons] at hnd
      have hadd : addArgument parser name kw = .ok (parser ++ [Action.ofCall name kw]) := by
        simp [addArgument, addArgumentError_fresh (hfresh _ (List.mem_cons_self _ _)),
          hok _ (List.mem_cons_self _ _)]
      simp only [addAll, hadd]
      rw [ih hnd.2 (fun e he => hok e (List.mem_cons_of_mem _ he)) fun e he => ?_]
      · simp
      · have hne : e.1 ≠ name := fun h => hnd.1 (List.mem_map.mpr ⟨e, he, h⟩)
        simp only [List.any_append, hfresh e (List.mem_cons_of_mem _ he), Bool.false_or,
          List.any_cons, List.any_nil, Bool.or_false, Action.ofCall_optionStrings]
        split <;> simp [hne]

structure ArgsOk (args : List (String × Kwargs τ)) : Prop where
  options : ∀ e ∈ args, isPositional e.1 = false
  names : (args.map (·.1)).Nodup
  dests : (args.map fun e => argDest e.1 e.2).Nodup
  accepted : ∀ e ∈ args, addArgumentError [] e.1 e.2 = none

theorem installs_of_fresh {args : List (String × Kwargs τ)} {parser : List (Action τ)}
    (ha : ArgsOk args) (hfresh : ∀ b ∈ parser, ∀ e ∈ args,
      b.optionStrings.contains e.1 = false ∧ b.dest ≠ argDest e.1 e.2) :
    Installs args (parser ++ args.map fun e => Action.ofCall e.1 e.2) := by
  intro e he
  refine ⟨List.mem_append_right _ (List.mem_map_of_mem _ he), by simp [ha.options e he],
    fun b hb hbd => ?_, fun b hb hbo => ?_⟩
  · rcases List.mem_append.mp hb with hb | hb
    · exact absurd hbd (hfresh b hb e he).2
    · obtain ⟨x, hx, rfl⟩ := List.mem_map.mp hb
      rw [List.inj_on_of_nodup_map ha.dests hx he hbd]
  · rcases List.mem_append.mp hb with hb | hb
    · rw [(hfresh b hb e he).1] at hbo
      cases hbo
    · obtain ⟨x, hx, rfl⟩ := List.mem_map.mp hb
      have hxe : x.1 = e.1 := by simpa [ha.options x hx, eq_comm] using hbo
      rw [List.inj_on_of_nodup_map ha.names hx he hxe]

theorem cfgInit_installs {args : List (String × Kwargs τ)} {fs : PyValue → Option Yaml}
    {parser : List (Action τ)} {cfgPath : String} {d : Yaml} (ha : ArgsOk args)
    (hfresh : ∀ b ∈ parser, ∀ e ∈ args,
      b.optionStrings.contains e.1 = false ∧ b.dest ≠ argDest e.1 e.2)
    (hload : fs (.str cfgPath) = some d) :
    cfgInit args fs (some parser) cfgPath = .ok (parser ++ args.map fun e => Action.ofCall e.1 e.2, d) ∧
      Installs args (parser ++ args.map fun e => Action.ofCall e.1 e.2) := by
  have hadd := @addAll_of_fresh τ args ha.names ha.accepted parser fun e he =>
    List.any_eq_false.mpr fun b hb => by simpa using (hfresh b hb e he).1
  refine ⟨?_, installs_of_fresh ha hfresh⟩
  simp [cfgInit, hadd, Except.mapError, loadYaml, hload]
  rfl

theorem ReleaseCfg.names_eq : (ReleaseCfg.arguments : List (String × Kwargs τ)).map (·.1) =
    ["--release", "--release-file", "--show-release-file-format"] := rfl

theorem ReleaseCfg.dests_eq :
    (ReleaseCfg.arguments : List (String × Kwargs τ)).map (fun e => argDest e.1 e.2) =
      ["release", "release_file", "show_release_file_format"] := rfl

theorem ReleaseCfg.argsOk : ArgsOk (ReleaseCfg.arguments : List (String × Kwargs τ)) := by
  refine ⟨fun e he => ?_, by rw [ReleaseCfg.names_eq]; decide, by rw [ReleaseCfg.dests_eq]; decide,
    fun e he => ?_⟩ <;>
  · simp only [ReleaseCfg.arguments, List.mem_cons, List.mem_singleton, List.not_mem_nil,
      or_false] at he
    rcases he with rfl | rfl | rfl <;> rfl

theorem EOSCoreCfg.names_eq : (EOSCoreCfg.arguments : List (String × Kwargs τ)).map (·.1) =
    ["--eoscore-file", "--show-eoscore-file-format"] := rfl

theorem EOSCoreCfg.dests_eq :
    (EOSCoreCfg.arguments : List (String × Kwargs τ)).map (fun e => argDest e.1 e.2) =
      ["eoscore_file", "show_eoscore_file_format"] := rfl

theorem EOSCoreCfg.argsOk : ArgsOk (EOSCoreCfg.arguments : List (String × Kwargs τ)) := by
  refine ⟨fun e he => ?_, by rw [EOSCoreCfg.names_eq]; decide, by rw [EOSCoreCfg.dests_eq]; decide,
    fun e he => ?_⟩ <;>
  · simp only [EOSCoreCfg.arguments, List.mem_cons, List.mem_singleton, List.not_mem_nil,
      or_false] at he
    rcases he with rfl | rfl <;> rfl

theorem fresh_of_disjoint {args more : List (String × Kwargs τ)}
    (hopt : ∀ e ∈ more, isPositional e.1 = false)
    (hnames : ∀ x ∈ more.map (·.1), x ∉ args.map (·.1))
    (hdests : ∀ x ∈ more.map (fun e => argDest e.1 e.2), x ∉ args.map fun e => argDest e.1 e.2) :
    ∀ b ∈ more.map (fun e => Action.ofCall e.1 e.2), ∀ e ∈ args,
      b.optionStrings.contains e.1 = false ∧ b.dest ≠ argDest e.1 e.2 := by
  intro b hb e he
  obtain ⟨x, hx, rfl⟩ := List.mem_map.mp hb
  have hne : x.1 ≠ e.1 := fun h => hnames _ (List.mem_map_of_mem _ hx) (h ▸ List.mem_map_of_mem _ he)
  have hdne : argDest x.1 x.2 ≠ argDest e.1 e.2 := fun h =>
    hdests _ (List.mem_map_of_mem _ hx) (h ▸ List.mem_map_of_mem _ he)
  exact ⟨by simp [hopt x hx, Ne.symm hne], hdne⟩

variable {run : τ → String → PyValue} {actions : List (Action τ)} {argv : List Arg}
  {ns : Dict PyValue}

theorem Owns.get_text {o d : String} {kw : Kwargs τ} (h : Owns actions o (Action.ofCall o kw))
    (hdest : (Action.ofCall o kw).dest = d) (hk : kw.kind = .store) (ht : kw.type = none)
    (hd : kw.default = none) (hn : kw.nargs = none) (hp : parseArgs run actions argv = .ok ns) :
    ns.get (.str d) = some (((lastToken o (canonArgs actions argv)).map .str).getD .none) := by
  rw [← hdest, h.get_store _ hk (by simp [Action.ofCall, hn]) hp]
  simp [Action.convert, Action.parsedDefault, Action.ofCall, ht, hd, hk, ActionKind.defaultDefault]
  rfl

theorem Owns.get_flag {o d : String} {kw : Kwargs τ} (h : Owns actions o (Action.ofCall o kw))
    (hdest : (Action.ofCall o kw).dest = d) (hk : kw.kind = .storeTrue) (hd : kw.default = none)
    (hp : parseArgs run actions argv = .ok ns) :
    ns.get (.str d) = some (.bool (decide (.opt o none ∈ canonArgs actions argv))) := by
  rw [← hdest, h.get_const _ (by simp [Action.ofCall, hk]) hp]
  by_cases hm : Arg.opt o none ∈ canonArgs actions argv <;>
    simp [hm, Action.ofCall, Action.parsedDefault, Kwargs.constValue, hk, hd, ActionKind.defaultDefault]

end

/-! ## `process_inputs` on a parser holding the component's arguments -/

section

variable {τ : Type} {run : τ → String → PyValue} {actions : List (Action τ)} {argv : List Arg}
  {ns : Dict PyValue}

theorem ReleaseCfg.parse_values (hi : Installs ReleaseCfg.arguments actions)
    (hp : parseArgs run actions argv = .ok ns) :
    ns.get (.str "release") =
        some (((lastToken "--release" (canonArgs actions argv)).map .str).getD .none) ∧
      ns.get (.str "release_file") =
        some (((lastToken "--release-file" (canonArgs actions argv)).map .str).getD .none) ∧
      ns.get (.str "show_release_file_format") =
        some (.bool (decide (.opt "--show-release-file-format" none ∈ canonArgs actions argv))) :=
  ⟨Owns.get_text (hi _ (List.mem_cons_self _ _)) rfl rfl rfl rfl rfl hp,
    Owns.get_text (hi _ (List.mem_cons_of_mem _ (List.mem_cons_self _ _))) rfl rfl rfl rfl rfl hp,
    Owns.get_flag (hi _ (List.mem_cons_of_mem _ (List.mem_cons_of_mem _ (List.mem_cons_self _ _))))
      rfl rfl rfl hp⟩

theorem EOSCoreCfg.parse_values (hi : Installs EOSCoreCfg.arguments actions)
    (hp : parseArgs run actions argv = .ok ns) :
    ns.get (.str "eoscore_file") =
        some (((lastToken "--eoscore-file" (canonArgs actions argv)).map .str).getD .none) ∧
      ns.get (.str "show_eoscore_file_format") =
        some (.bool (decide (.opt "--show-eoscore-file-format" none ∈ canonArgs actions argv))) :=
  ⟨Owns.get_text (hi _ (List.mem_cons_self _ _)) rfl rfl rfl rfl rfl hp,
    Owns.get_flag (hi _ (List.mem_cons_of_mem _ (List.mem_cons_self _ _))) rfl rfl rfl hp⟩

end

/-! ## What a call may change

A call of `process_inputs` either merges a YAML file over the options, at the top level only, or
changes them at most at the keys its prompts and `--release` write. This holds of every call,
returning or raising, on any parser and any command line. -/

def resultOptions {α : Type} : EStateM.Result CfgError Yaml α → Yaml
  | .ok _ d => d
  | .error _ d => d

/-- A method keeps the options related to where they started by `R`, whether it returns or
raises. -/
def Keeps {α : Type} (R : Yaml → Yaml → Prop) (x : EStateM CfgError Yaml α) : Prop :=
  ∀ d, R d (resultOptions (x.run d))

namespace Yaml

/-- `d'` agrees with `d` outside the keys `keys` of `d[group]`: at every other top-level key, and
at every other key of `group`. -/
def SameOutside (group : String) (keys : List String) (d d' : Yaml) : Prop :=
  (∀ g, g ≠ .str group → d'.get? g = d.get? g) ∧
    ∀ k, k ∉ keys.map PyValue.str →
      (d'.get? (.str group)).bind (·.get? k) = (d.get? (.str group)).bind (·.get? k)

/-- `d'` is the mapping `d` with the pairs of a document the file system holds set over it at the
top level, in order, as `dict.update` sets them before it returns or raises: each pair replaces
the whole value at its key. -/
def Merged (fs : PyValue → Option Yaml) (d d' : Yaml) : Prop :=
  ∃ path new es, fs path = some new ∧ d = .map es ∧
    d' = .map ((updatePairs new).foldl (fun d e => Dict.set d e.1 e.2) es)

def EditsWithin (fs : PyValue → Option Yaml) (group : String) (keys : List String) (d d' : Yaml) :
    Prop :=
  Merged fs d d' ∨ SameOutside group keys d d'

variable {group key : String} {keys : List String} {d d' d'' : Yaml}

theorem SameOutside.refl (d : Yaml) : SameOutside group keys d d :=
  ⟨fun _ _ => rfl, fun _ _ => rfl⟩

theorem SameOutside.trans (h₁ : SameOutside group keys d d') (h₂ : SameOutside group keys d' d'') :
    SameOutside group keys d d'' :=
  ⟨fun g hg => (h₂.1 g hg).trans (h₁.1 g hg), fun k hk => (h₂.2 k hk).trans (h₁.2 k hk)⟩

theorem setIn_sameOutside {v : Yaml} (h : d.setIn group key v = .ok d') (hk : key ∈ keys) :
    SameOutside group keys d d' := by
  unfold setIn at h
  split at h
  · rename_i es
    split at h
    · rename_i inner hg
      obtain rfl := (Except.ok.inj h).symm
      refine ⟨fun g hg' => ?_, fun k hk' => ?_⟩
      · simp only [get?, Dict.get_set, if_neg (Ne.symm hg')]
      · have hne : PyValue.str key ≠ k := fun e => hk' (e ▸ List.mem_map_of_mem _ hk)
        simp [get?, Dict.get_set, hg, hne]
    all_goals cases h
  · cases h

theorem mergeFromSeq2_fst :
    ∀ (es : List (PyValue × Yaml)) (items : List Yaml),
      (mergeFromSeq2 es items).1 = (pairPrefix items).foldl (fun d e => Dict.set d e.1 e.2) es := by
  intro es items
  induction items generalizing es with
  | nil => rfl
  | cons item items ih =>
      simp only [mergeFromSeq2, pairPrefix]
      split <;> simp_all

theorem update_result (new d : Yaml) :
    resultOptions (update new d) = d ∨ ∃ es, d = .map es ∧
      resultOptions (update new d) = .map ((updatePairs new).foldl (fun d e => Dict.set d e.1 e.2) es) := by
  unfold update
  split
  · exact .inr ⟨_, rfl, rfl⟩
  · rename_i es hnew
    have hpairs : ∀ items, new.iterItems = some items → updatePairs new = pairPrefix items := by
      intro items hi
      cases new with
      | map n => exact absurd rfl (hnew n)
      | _ => simp [updatePairs, hi]
    split
    · exact .inl rfl
    · rename_i items hi
      refine .inr ⟨es, rfl, ?_⟩
      rw [hpairs items hi, ← mergeFromSeq2_fst]
      split <;> rename_i heq <;> rw [heq] <;> rfl
  · exact .inl rfl

theorem setIn_self {cur : Yaml}
    (h : (d.getItem (.str group) >>= (·.getItem (.str key))) = .ok cur) :
    d.setIn group key cur = .ok d := by
  cases d with
  | map es =>
      cases hg : Dict.get es (.str group) with
      | none => simp [getItem, hg, bind, Except.bind] at h
      | some g =>
          cases g with
          | map inner =>
              cases hk : Dict.get inner (.str key) with
              | none => simp [getItem, hg, hk, bind, Except.bind] at h
              | some c =>
                  obtain rfl : c = cur := by simpa [getItem, hg, hk, bind, Except.bind] using h
                  simp [setIn, hg, Dict.set_of_get hk, Dict.set_of_get hg]
          | _ => simp [getItem, hg, bind, Except.bind] at h
  | _ => simp [getItem, bind, Except.bind] at h

end Yaml

theorem run_bind {α β : Type} (x : EStateM CfgError Yaml α) (f : α → EStateM CfgError Yaml β)
    (d : Yaml) :
    (x >>= f).run d = match x.run d with
      | .ok a s => (f a).run s
      | .error e s => .error e s := by
  show EStateM.bind x f d = _
  unfold EStateM.bind EStateM.run
  cases x d <;> rfl

theorem loadYaml_ok {fs : PyValue → Option Yaml} {path : PyValue} {d : Yaml}
    (h : loadYaml fs path = .ok d) : fs path = some d := by
  unfold loadYaml at h
  split at h <;> cases h
  assumption

section

variable {R : Yaml → Yaml → Prop}

theorem keeps_pure (hR : ∀ d, R d d) {α : Type} (a : α) : Keeps R (pure a) := fun d => hR d

theorem keeps_throw (hR : ∀ d, R d d) {α : Type} (e : CfgError) :
    Keeps R (throw e : EStateM CfgError Yaml α) := fun d => hR d

theorem keeps_liftCfg_bind (hR : ∀ d, R d d) {α β : Type} {x : Except CfgError α}
    {f : α → EStateM CfgError Yaml β} (hf : ∀ a, Keeps R (f a)) : Keeps R (liftCfg x >>= f) := by
  cases x with
  | ok a => simpa using hf a
  | error e => rw [liftCfg_error, cfg_throw_bind]; exact keeps_throw hR e

theorem keeps_bind_pure {α β : Type} {x : EStateM CfgError Yaml α} (hx : Keeps R x) (b : β) :
    Keeps R (x >>= fun _ => pure b) := by
  intro d
  have h := hx d
  rw [run_bind]
  revert h
  cases x.run d <;> exact id

end

variable {group : String} {keys : List String}

theorem keeps_assignIn {key : String} {v : Yaml} (hk : key ∈ keys) :
    Keeps (Yaml.SameOutside group keys) (assignIn group key v) := by
  intro d
  show Yaml.SameOutside group keys d (resultOptions (assignIn group key v d))
  unfold assignIn
  split
  · exact Yaml.setIn_sameOutside ‹_› hk
  · exact Yaml.SameOutside.refl d

theorem keeps_promptKeys : ∀ {ks : List String}, ks ⊆ keys → ∀ answers,
    Keeps (Yaml.SameOutside group keys) (promptKeys group ks answers) := by
  intro ks
  induction ks with
  | nil => intro _ _; exact keeps_pure Yaml.SameOutside.refl _
  | cons key ks ih =>
      intro hks answers d
      have hassign : ∀ v r, assignIn group key v d = r →
          Yaml.SameOutside group keys d (resultOptions r) :=
        fun _ _ hr => hr ▸ keeps_assignIn (hks (List.mem_cons_self _ _)) d
      show Yaml.SameOutside group keys d (resultOptions (promptKeys group (key :: ks) answers d))
      unfold promptKeys
      split
      · exact Yaml.SameOutside.refl d
      · exact Yaml.SameOutside.refl d
      · split
        · rename_i d' hd
          exact (hassign _ _ hd).trans (ih (fun x hx => hks (List.mem_cons_of_mem _ hx)) _ d')
        · exact hassign _ _ ‹_›

theorem promptKeys_empty : ∀ {ks answers : List String} {d : Yaml},
    (∀ k ∈ ks, ∃ cur, (d.getItem (.str group) >>= (·.getItem (.str k))) = .ok cur) →
    ks.length ≤ answers.length → (∀ a ∈ answers, a = "") →
    (promptKeys group ks answers).run d = .ok () d := by
  intro ks
  induction ks with
  | nil => intro _ _ _ _ _; rfl
  | cons key ks ih =>
      intro answers d hk hlen hans
      obtain ⟨a, rest, rfl⟩ : ∃ a rest, answers = a :: rest := by
        cases answers with
        | nil => simp at hlen
        | cons a rest => exact ⟨a, rest, rfl⟩
      obtain ⟨cur, hcur⟩ := hk key (.head _)
      show promptKeys group (key :: ks) (a :: rest) d = _
      simp only [promptKeys, hcur, hans a (.head _), if_true, assignIn, Yaml.setIn_self hcur]
      exact ih (fun k hk' => hk k (.tail _ hk')) (by simpa using hlen) fun x hx => hans x (.tail _ hx)

theorem keeps_mergeFile {fs : PyValue → Option Yaml} {path : PyValue} :
    Keeps (Yaml.EditsWithin fs group keys) (mergeFile fs path) := by
  intro d
  show Yaml.EditsWithin fs group keys d (resultOptions (mergeFile fs path d))
  unfold mergeFile
  split
  · rename_i new hl
    rcases Yaml.update_result new d with h | ⟨es, rfl, h⟩
    · rw [h]
      exact .inr (Yaml.SameOutside.refl _)
    · exact .inl ⟨path, new, es, loadYaml_ok hl, rfl, h⟩
  · exact .inr (Yaml.SameOutside.refl d)

theorem keeps_processParsed {fmtDest fileDest : String} {fs : PyValue → Option Yaml}
    {final : Dict PyValue → EStateM CfgError Yaml Bool} {answers : List String} {ns : Dict PyValue}
    (hfinal : ∀ ns, Keeps (Yaml.SameOutside group keys) (final ns)) :
    Keeps (Yaml.EditsWithin fs group keys)
      (processParsed fmtDest fileDest group keys final fs answers ns) := by
  have hR : ∀ d, Yaml.EditsWithin fs group keys d d := fun d => .inr (Yaml.SameOutside.refl d)
  unfold processParsed
  refine keeps_liftCfg_bind hR fun fmt => ?_
  split
  · exact keeps_pure hR _
  · refine keeps_liftCfg_bind hR fun file => ?_
    split
    · exact keeps_bind_pure keeps_mergeFile _
    · refine keeps_liftCfg_bind hR fun interactive => ?_
      split
      · exact keeps_bind_pure (fun d => .inr (keeps_promptKeys (List.Subset.refl _) answers d)) _
      · exact fun d => .inr (hfinal ns d)

theorem ReleaseCfg.keeps_final (ns : Dict PyValue) :
    Keeps (Yaml.SameOutside "eos_release" ["target_build"]) (ReleaseCfg.final ns) := by
  unfold ReleaseCfg.final
  refine keeps_liftCfg_bind Yaml.SameOutside.refl fun release => ?_
  split
  · exact keeps_bind_pure (keeps_assignIn (List.mem_singleton_self _)) _
  · exact keeps_pure Yaml.SameOutside.refl _

section

variable {τ : Type}

end

/-! ## Two components on one parser -/

section

variable {τ : Type}

theorem Installs.append {args : List (String × Kwargs τ)} {actions more : List (Action τ)}
    (h : Installs args actions)
    (hm : ∀ b ∈ more, ∀ e ∈ args, b.optionStrings.contains e.1 = false ∧ b.dest ≠ argDest e.1 e.2) :
    Installs args (actions ++ more) :=
  fun e he => (h e he).append fun b hb => hm b hb e he

end

/-! ## A setup script's parser -/

def releaseDefaults : Yaml :=
  .map [(.str "eos_release", .map [(.str "target_build", .scalar (.str "EES_Sprint1"))])]

def sampleFs : PyValue → Option Yaml := fun path =>
  if path = .str "release.yaml" then some releaseDefaults else none

theorem sampleFs_release : sampleFs (.str "release.yaml") = some releaseDefaults := by
  unfold sampleFs
  exact if_pos rfl

def releaseParser : List (Action Unit) := [] ++ ReleaseCfg.arguments.map fun e => Action.ofCall e.1 e.2

def releaseArgv : List Arg := [.opt "--release" (some "EES_Sprint2")]

def releaseNs : Dict PyValue :=
  [(.str "release", .str "EES_Sprint2"), (.str "release_file", .none),
   (.str "show_release_file_format", .bool false)]

theorem releaseParser_installs : Installs ReleaseCfg.arguments releaseParser :=
  @installs_of_fresh Unit ReleaseCfg.arguments [] ReleaseCfg.argsOk fun _ hb => absurd hb (List.not_mem_nil _)

/-- The parser resolves `--show` to the format flag, and refuses `--rel`, the beginning of two of
its option strings. -/
example : canonArgs releaseParser [.opt "--show" none] = [.opt "--show-release-file-format" none] ∧
    resolveOption releaseParser "--rel" = .error (.ambiguous "--rel" ["--release", "--release-file"]) := by
  decide

def eoscoreParser : List (Action Unit) := [] ++ EOSCoreCfg.arguments.map fun e => Action.ofCall e.1 e.2

def eoscoreArgv : List Arg := [.opt "--eoscore-file" (some "eoscore.yaml")]

def eoscoreNs : Dict PyValue :=
  [(.str "eoscore_file", .str "eoscore.yaml"), (.str "show_eoscore_file_format", .bool false)]

theorem eoscoreParser_installs : Installs EOSCoreCfg.arguments eoscoreParser :=
  @installs_of_fresh Unit EOSCoreCfg.arguments [] EOSCoreCfg.argsOk fun _ hb =>
    absurd hb (List.not_mem_nil _)

section

variable {τ : Type} {run : τ → String → PyValue} {actions : List (Action τ)} {argv : List Arg}
  {ns : Dict PyValue}

end

section

variable {τ : Type} {run : τ → String → PyValue} {actions : List (Action τ)} {argv : List Arg}
  {ns : Dict PyValue}

end

def interactiveParser : List (Action Unit) :=
  eoscoreParser ++ [Action.ofCall "--interactive"
    ⟨"store_true", none, some "interactive", none, none, none, "interactive mode", none, none⟩]

def interactiveArgv : List Arg := [.opt "--interactive" none]

def interactiveNs : Dict PyValue :=
  [(.str "eoscore_file", .none), (.str "show_eoscore_file_format", .bool false),
   (.str "interactive", .bool true)]

def eoscoreOptions : Yaml :=
  .map [(.str "eoscore", .map [(.str "MERO_M0D_MAX_RPC_MSG_SIZE", .scalar (.int 65536)),
    (.str "MERO_M0D_BELOG_SIZE", .scalar (.int 134217728)),
    (.str "MERO_M0D_IOS_BESEG_SIZE", .scalar (.int 4294967296))])]

end Provisioner
