import Provisioner.Values

/-!
# argparse

The part of the standard library's `argparse` that the parser glue drives: `add_argument` with
the keyword arguments `AttrParserArgs.kwargs` builds, and `parse_args` on a command line.

A command line is its sequence of arguments, as `parse_args` classifies them: a token for the
next positional, or an option with the value written after `=`, if any. `parse_args` first
resolves every option as `_parse_optional` does: an option string of the parser stands for
itself, and with `allow_abbrev` (the default) a `--` argument stands for the one option string it
is a prefix of, several being ambiguous. The actions modelled are `store`, `store_const`,
`store_true` and `store_false`, with `nargs` absent or (for an option) `'?'`; `parse_args`
reports the other actions of the registry (`append`, `count`, ...) and other `nargs` as
unsupported. `type` callables are opaque: the parse takes a function that runs them. When
several errors apply, the model reports the first it meets, not always the one argparse prints.
-/

namespace Provisioner

namespace Argparse

/-- The action classes of argparse's registry: the four modelled, and the others by name. -/
inductive ActionKind where
  | store
  | storeConst
  | storeTrue
  | storeFalse
  /-- `append`, `append_const`, `count`, `help`, `version` or `parsers`. -/
  | unmodelled (name : String)
  deriving DecidableEq

/-- `parser._registry_get('action', name)`. -/
def ActionKind.ofString : String → Option ActionKind
  | "store" => some .store
  | "store_const" => some .storeConst
  | "store_true" => some .storeTrue
  | "store_false" => some .storeFalse
  | "append" => some (.unmodelled "append")
  | "append_const" => some (.unmodelled "append_const")
  | "count" => some (.unmodelled "count")
  | "help" => some (.unmodelled "help")
  | "version" => some (.unmodelled "version")
  | "parsers" => some (.unmodelled "parsers")
  | _ => none

def ActionKind.name : ActionKind → String
  | .store => "store"
  | .storeConst => "store_const"
  | .storeTrue => "store_true"
  | .storeFalse => "store_false"
  | .unmodelled n => n

theorem ActionKind.ofString_name {s : String} {k : ActionKind} (h : ActionKind.ofString s = some k) :
    s = k.name := by
  unfold ActionKind.ofString at h
  split at h <;> cases h <;> rfl

theorem ActionKind.ofString_getD {s : String} {k : ActionKind}
    (h : (ActionKind.ofString s).getD .store = k) (hk : k ≠ .store) : s = k.name := by
  cases ho : ActionKind.ofString s with
  | none => rw [ho] at h; exact absurd h.symm hk
  | some k' => rw [ho] at h; subst h; exact ActionKind.ofString_name ho

/-- The keyword arguments of one `add_argument` call; `none` is a key the dict does not hold. -/
structure Kwargs (τ : Type) where
  action : String
  metavar : Option (Option String)
  dest : Option String
  default : Option PyValue
  const : Option PyValue
  choices : Option (List String)
  help : String
  type : Option τ
  nargs : Option String

/-- An argument of the parser. A positional has no option strings. -/
structure Action (τ : Type) where
  optionStrings : List String
  dest : String
  kind : ActionKind
  default : PyValue
  const : PyValue
  type : Option τ
  choices : Option (List String)
  nargs : Option String
  required : Bool

/-- Why `add_argument` raises. -/
inductive AddError where
  /-- `ValueError`: a positional named by its first argument cannot take `dest`. -/
  | destTwice
  /-- `IndexError` on `args[0][0]`. -/
  | emptyName
  /-- `ValueError`: `dest=` is required for an option string of dashes only. -/
  | destRequired (option : String)
  | unknownAction (name : String)
  /-- `TypeError` from the action class. -/
  | unexpectedKeyword (key : String)
  /-- `TypeError`: `store_const` without `const`. -/
  | missingConst
  /-- `ValueError`: `nargs must be '?' to supply const`. -/
  | constNeedsOptional
  /-- `ArgumentError`: conflicting option string. -/
  | conflict (option : String)
  deriving DecidableEq

variable {τ : Type}

def Kwargs.keys (kw : Kwargs τ) : List String :=
  (if kw.metavar.isSome then ["metavar"] else []) ++ (if kw.dest.isSome then ["dest"] else []) ++
    (if kw.default.isSome then ["default"] else []) ++
    (if kw.const.isSome then ["const"] else []) ++
    (if kw.choices.isSome then ["choices"] else []) ++ ["help"] ++
    (if kw.type.isSome then ["type"] else []) ++ (if kw.nargs.isSome then ["nargs"] else [])

def ActionKind.accepts : ActionKind → List String
  | .store | .unmodelled "append" => ["dest", "nargs", "const", "default", "type", "choices",
      "required", "help", "metavar"]
  | .storeConst | .unmodelled "append_const" => ["dest", "const", "default", "required", "help",
      "metavar"]
  | .storeTrue | .storeFalse | .unmodelled "count" => ["dest", "default", "required", "help"]
  | .unmodelled "help" => ["dest", "default", "help"]
  | .unmodelled "version" => ["version", "dest", "default", "help"]
  | .unmodelled _ => ["prog", "parser_class", "dest", "help", "metavar"]

def ActionKind.defaultDefault : ActionKind → PyValue
  | .storeTrue => .bool false
  | .storeFalse => .bool true
  | _ => .none

def derivedDest (name : String) : List Char :=
  (name.toList.dropWhile (· = '-')).map fun c => if c = '-' then '_' else c

def isPositional (name : String) : Bool := name.toList.head? ≠ some '-'

/-- The destination of `add_argument(name, **kwargs)`: the name of a positional; for an option,
its `dest`, else the one derived from the option string. -/
def argDest (name : String) (kw : Kwargs τ) : String :=
  if isPositional name then name
  else match kw.dest with
    | some d => d
    | none => String.mk (derivedDest name)

def Kwargs.kind (kw : Kwargs τ) : ActionKind := (ActionKind.ofString kw.action).getD .store

def Kwargs.constValue (kw : Kwargs τ) : PyValue :=
  match kw.kind with
  | .storeTrue => .bool true
  | .storeFalse => .bool false
  | _ => kw.const.getD .none

/-- The first check of `add_argument` that fails, in the order argparse makes them. -/
def addArgumentError (parser : List (Action τ)) (name : String) (kw : Kwargs τ) :
    Option AddError :=
  match name.toList.head? with
  | none => some .emptyName
  | some _ =>
    if isPositional name ∧ kw.dest.isSome then some .destTwice
    else if !isPositional name ∧ kw.dest.isNone ∧ derivedDest name = [] then
      some (.destRequired name)
    else match ActionKind.ofString kw.action with
      | none => some (.unknownAction kw.action)
      | some kind =>
        match kw.keys.find? (· ∉ kind.accepts) with
        | some key => some (.unexpectedKeyword key)
        | none =>
          if (kind = .storeConst ∨ kind = .unmodelled "append_const") ∧ kw.const.isNone then
            some .missingConst
          else if (kind = .store ∨ kind = .unmodelled "append") ∧ kw.const.getD .none ≠ .none ∧
              kw.nargs ≠ some "?" then
            some .constNeedsOptional
          else if !isPositional name ∧ parser.any (·.optionStrings.contains name) then
            some (.conflict name)
          else none

/-- The action a valid `add_argument(name, **kwargs)` call builds. -/
def Action.ofCall (name : String) (kw : Kwargs τ) : Action τ :=
  ⟨if isPositional name then [] else [name], argDest name kw, kw.kind,
    kw.default.getD kw.kind.defaultDefault, kw.constValue, kw.type, kw.choices, kw.nargs,
    isPositional name ∧ kw.nargs ≠ some "?" ∧ kw.nargs ≠ some "*"⟩

/-- `parser.add_argument(name, **kwargs)` on a parser holding `parser`. -/
def addArgument (parser : List (Action τ)) (name : String) (kw : Kwargs τ) :
    Except AddError (List (Action τ)) :=
  match addArgumentError parser name kw with
  | some e => .error e
  | none => .ok (parser ++ [Action.ofCall name kw])

/-- An argument on the command line: a token for the next positional, or an option string with
the value written after `=`, if any. -/
inductive Arg where
  | pos (token : String)
  | opt (option : String) (value : Option String)
  deriving DecidableEq

def Arg.isPos : Arg → Bool
  | .pos _ => true
  | .opt _ _ => false

def Arg.token? : Arg → Option String
  | .pos t => some t
  | .opt _ _ => none

/-- Why `parse_args` exits. -/
inductive ParseError where
  | unrecognized (text : String)
  | ambiguous (option : String) (candidates : List String)
  | expectedOne (option : String)
  | ignoredExplicit (option value : String)
  | invalidChoice (dest : String) (value : PyValue)
  | required (dests : List String)
  /-- An action outside the modelled ones. -/
  | unsupported (dest : String)
  deriving DecidableEq

section Parse

variable (run : τ → String → PyValue)

/-- `parser._get_value(action, text)`: the action's `type` applied to the text, or the text. -/
def Action.convert (a : Action τ) (text : String) : PyValue :=
  match a.type with
  | some f => run f text
  | none => .str text

def Action.storeValue (a : Action τ) (token : String) : Except ParseError PyValue :=
  let v := a.convert run token
  match a.choices with
  | some cs => if v ∈ cs.map PyValue.str then .ok v else .error (.invalidChoice a.dest v)
  | none => .ok v

def Action.optionValue (a : Action τ) (option : String) : Option String → Except ParseError PyValue
  | some t => match a.kind with
    | .store => a.storeValue run t
    | _ => .error (.ignoredExplicit option t)
  | none => match a.kind with
    | .store =>
      if a.nargs = some "?" then
        match a.const with
        | .str s => a.storeValue run s
        | v => .ok v
      else .error (.expectedOne option)
    | _ => .ok a.const

/-- The actions modelled: `store` with one value (or, for an option, `nargs='?'`), and the
constant actions as options. -/
def Action.supported (a : Action τ) : Bool :=
  match a.kind with
  | .store => a.nargs = none ∨ (a.optionStrings ≠ [] ∧ a.nargs = some "?")
  | .unmodelled _ => false
  | _ => a.optionStrings ≠ []

def optionStrings (actions : List (Action τ)) : List String := actions.flatMap (·.optionStrings)

/-- `parser._parse_optional` on an option of the command line: the option string it stands for.
An option string of the parser stands for itself; otherwise a `--` argument stands for the one
option string it is a prefix of (`allow_abbrev`). -/
def resolveOption (actions : List (Action τ)) (o : String) : Except ParseError String :=
  if o ∈ optionStrings actions then .ok o
  else if "--".toList.isPrefixOf o.toList then
    match (optionStrings actions).filter (o.toList.isPrefixOf ·.toList) with
    | [o'] => .ok o'
    | [] => .error (.unrecognized o)
    | os => .error (.ambiguous o os)
  else .error (.unrecognized o)

def Arg.resolve (actions : List (Action τ)) : Arg → Except ParseError Arg
  | .pos t => .ok (.pos t)
  | .opt o value => (resolveOption actions o).map (.opt · value)

/-- The classification pass of `_parse_known_args`: every option resolved, the first ambiguous
or unknown one an error. -/
def resolveArgs (actions : List (Action τ)) : List Arg → Except ParseError (List Arg)
  | [] => .ok []
  | arg :: args => match arg.resolve actions, resolveArgs actions args with
    | .ok a, .ok as => .ok (a :: as)
    | .error e, _ | .ok _, .error e => .error e

/-- The command line as the parser reads it: every option it resolves written as the option
string it stands for. -/
def canonArgs (actions : List (Action τ)) (args : List Arg) : List Arg :=
  args.map fun arg => (arg.resolve actions).toOption.getD arg

def initialNamespace (actions : List (Action τ)) : Dict PyValue :=
  actions.foldl (fun ns a => if (ns.get (.str a.dest)).isSome then ns else ns.set (.str a.dest) a.default) []

structure ParseState (τ : Type) where
  ns : Dict PyValue
  written : List String
  pending : List (Action τ)

/-- One argument of the command line. -/
def parseStep (actions : List (Action τ)) (st : ParseState τ) : Arg → Except ParseError (ParseState τ)
  | .pos token => match st.pending with
    | [] => .error (.unrecognized token)
    | a :: rest => (a.storeValue run token).map fun v =>
      ⟨st.ns.set (.str a.dest) v, a.dest :: st.written, rest⟩
  | .opt o value => match actions.find? (·.optionStrings.contains o) with
    | none => .error (.unrecognized o)
    | some a => (a.optionValue run o value).map fun v =>
      ⟨st.ns.set (.str a.dest) v, a.dest :: st.written, st.pending⟩

def consume (actions : List (Action τ)) : ParseState τ → List Arg → Except ParseError (ParseState τ)
  | st, [] => .ok st
  | st, arg :: args => match parseStep run actions st arg with
    | .ok st' => consume actions st' args
    | .error e => .error e

/-- A string default of an action no argument wrote is converted by its `type`, once per
destination. -/
def convertDefaults (written : List String) :
    List (Action τ) → List String → Dict PyValue → Dict PyValue
  | [], _, ns => ns
  | a :: as, firsts, ns =>
    let ns' := if a.dest ∉ firsts ∧ a.dest ∉ written then
        match a.default with
        | .str s => ns.set (.str a.dest) (a.convert run s)
        | _ => ns
      else ns
    convertDefaults written as (a.dest :: firsts) ns'

/-- `vars(parser.parse_args(args))`. -/
def parseArgs (actions : List (Action τ)) (args : List Arg) : Except ParseError (Dict PyValue) :=
  match actions.find? (!·.supported) with
  | some a => .error (.unsupported a.dest)
  | none =>
    match resolveArgs actions args with
    | .error e => .error e
    | .ok line =>
      match consume run actions ⟨initialNamespace actions, [], actions.filter (·.optionStrings = [])⟩
          line with
      | .error e => .error e
      | .ok st =>
        if !st.pending.isEmpty then .error (.required (st.pending.map (·.dest)))
        else .ok (convertDefaults run st.written actions [] st.ns)

end Parse

/-! ## What `add_argument` and `parse_args` keep -/

section Lemmas

variable {τ : Type}

@[simp] theorem Action.ofCall_dest (name : String) (kw : Kwargs τ) :
    (Action.ofCall name kw).dest = argDest name kw := rfl

@[simp] theorem Action.ofCall_optionStrings (name : String) (kw : Kwargs τ) :
    (Action.ofCall name kw).optionStrings = if isPositional name then [] else [name] := rfl

theorem addArgument_ok {parser parser' : List (Action τ)} {name : String} {kw : Kwargs τ}
    (h : addArgument parser name kw = .ok parser') :
    parser' = parser ++ [Action.ofCall name kw] ∧ (isPositional name → kw.dest = none) := by
  unfold addArgument at h
  split at h
  · cases h
  · rename_i herr
    refine ⟨(Except.ok.inj h).symm, fun hp => ?_⟩
    unfold addArgumentError at herr
    split at herr
    · cases herr
    · cases hd : kw.dest with
      | none => rfl
      | some d => rw [if_pos ⟨hp, by simp [hd]⟩] at herr; cases herr

theorem addArgumentError_fresh {parser : List (Action τ)} {name : String} {kw : Kwargs τ}
    (h : parser.any (·.optionStrings.contains name) = false) :
    addArgumentError parser name kw = addArgumentError [] name kw := by
  simp only [addArgumentError, h, List.any_nil]

variable (run : τ → String → PyValue)

theorem initialNamespace_get_eq (actions : List (Action τ)) (d : String) :
    (initialNamespace actions).get (.str d) = (actions.find? (·.dest = d)).map (·.default) := by
  suffices ∀ ns : Dict PyValue, (actions.foldl (fun ns a => if (ns.get (.str a.dest)).isSome then ns
      else ns.set (.str a.dest) a.default) ns).get (.str d) =
      (ns.get (.str d)).or ((actions.find? (·.dest = d)).map (·.default)) from this []
  induction actions with
  | nil => intro ns; simp
  | cons a as ih =>
      intro ns
      rw [List.foldl_cons, ih]
      by_cases had : a.dest = d
      · subst had
        cases hget : ns.get (.str a.dest) <;> simp [hget, Dict.get_set]
      · have hne : PyValue.str a.dest ≠ .str d := fun e => had (PyValue.str.inj e)
        split <;> simp [had, Dict.get_set, hne]

theorem initialNamespace_get (actions : List (Action τ)) :
    ∀ a ∈ actions, ((initialNamespace actions).get (.str a.dest)).isSome := by
  intro a ha
  rw [initialNamespace_get_eq, Option.isSome_map']
  exact List.find?_isSome.mpr ⟨a, ha, by simp⟩

theorem parseStep_ok {actions : List (Action τ)} {st st' : ParseState τ} {arg : Arg}
    (h : parseStep run actions st arg = .ok st') :
    (∃ token a rest v, arg = .pos token ∧ st.pending = a :: rest ∧ a.storeValue run token = .ok v ∧
      st' = ⟨st.ns.set (.str a.dest) v, a.dest :: st.written, rest⟩) ∨
    (∃ o value a v, arg = .opt o value ∧ actions.find? (·.optionStrings.contains o) = some a ∧
      a.optionValue run o value = .ok v ∧
      st' = ⟨st.ns.set (.str a.dest) v, a.dest :: st.written, st.pending⟩) := by
  cases arg with
  | pos token =>
      rcases hp : st.pending with _ | ⟨a, rest⟩
      · simp only [parseStep, hp] at h
        cases h
      · simp only [parseStep, hp] at h
        obtain ⟨v, hv, rfl⟩ := exists_of_map_eq_ok h
        exact .inl ⟨token, a, rest, v, rfl, rfl, hv, rfl⟩
  | opt o value =>
      rcases ha : actions.find? (·.optionStrings.contains o) with _ | a
      · simp only [parseStep, ha] at h
        cases h
      · simp only [parseStep, ha] at h
        obtain ⟨v, hv, rfl⟩ := exists_of_map_eq_ok h
        exact .inr ⟨o, value, a, v, rfl, ha, hv, rfl⟩

theorem parseStep_ns {actions : List (Action τ)} {st st' : ParseState τ} {arg : Arg}
    (h : parseStep run actions st arg = .ok st') : ∃ k v, st'.ns = st.ns.set k v := by
  rcases parseStep_ok run h with ⟨-, -, -, -, -, -, -, rfl⟩ | ⟨-, -, -, -, -, -, -, rfl⟩ <;>
    exact ⟨_, _, rfl⟩

theorem parseStep_pending {actions : List (Action τ)} {st st' : ParseState τ} {arg : Arg}
    (h : parseStep run actions st arg = .ok st') :
    st'.pending = (if arg.isPos then st.pending.tail else st.pending) ∧
      (arg.isPos → st.pending ≠ []) := by
  rcases parseStep_ok run h with ⟨t, a, rest, v, rfl, hp, -, rfl⟩ | ⟨o, val, a, v, rfl, -, -, rfl⟩
  · simp [Arg.isPos, hp]
  · simp [Arg.isPos]

theorem consume_pending {actions : List (Action τ)} :
    ∀ {st st' : ParseState τ} {args : List Arg}, consume run actions st args = .ok st' →
      (args.filter Arg.isPos).length ≤ st.pending.length ∧
        st'.pending = st.pending.drop (args.filter Arg.isPos).length := by
  intro st st' args h
  induction args generalizing st with
  | nil => cases h; simp
  | cons arg args ih =>
      simp only [consume] at h
      split at h
      · rename_i st₁ h₁
        obtain ⟨hp, hne⟩ := parseStep_pending run h₁
        obtain ⟨hlen, hdrop⟩ := ih h
        rw [hp] at hlen hdrop
        cases hpos : arg.isPos
        · simp only [hpos, if_false, Bool.false_eq_true] at hlen hdrop
          simpa [List.filter_cons, hpos] using ⟨hlen, hdrop⟩
        · have := List.length_pos.mpr (hne hpos)
          simp only [hpos, if_true, List.length_tail] at hlen hdrop
          simp only [List.filter_cons, hpos, if_true, List.length_cons]
          refine ⟨by omega, ?_⟩
          rw [hdrop, List.drop_tail, Nat.add_comm]
      · cases h

theorem Action.storeValue_ok {a : Action τ} {t : String} {v : PyValue}
    (h : a.storeValue run t = .ok v) :
    v = a.convert run t ∧ ∀ cs, a.choices = some cs → v ∈ cs.map PyValue.str := by
  simp only [Action.storeValue] at h
  cases hcs : a.choices with
  | none =>
      simp only [hcs] at h
      exact ⟨(Except.ok.inj h).symm, fun _ h' => nomatch h'⟩
  | some cs =>
      simp only [hcs] at h
      split at h
      · obtain rfl := Except.ok.inj h
        exact ⟨rfl, fun cs' hcs' => by cases hcs'; assumption⟩
      · cases h

/-! ### Resolving options -/

theorem resolveArgs_ok {actions : List (Action τ)} :
    ∀ {args line : List Arg}, resolveArgs actions args = .ok line → line = canonArgs actions args := by
  intro args
  induction args with
  | nil => intro line h; cases h; rfl
  | cons arg args ih =>
      intro line h
      simp only [resolveArgs] at h
      split at h
      · rename_i a as ha has
        cases h
        simp [canonArgs, ha, Except.toOption, ih has]
      all_goals cases h

theorem token?_resolve (actions : List (Action τ)) (arg : Arg) :
    ((arg.resolve actions).toOption.getD arg).token? = arg.token? := by
  cases arg with
  | pos t => rfl
  | opt o v => simp only [Arg.resolve]; cases resolveOption actions o <;> rfl

theorem canonArgs_tokens (actions : List (Action τ)) (args : List Arg) :
    (canonArgs actions args).filterMap Arg.token? = args.filterMap Arg.token? := by
  simp only [canonArgs, List.filterMap_map, Function.comp_def, token?_resolve]

theorem parseArgs_ok {actions : List (Action τ)} {args : List Arg} {ns : Dict PyValue}
    (h : parseArgs run actions args = .ok ns) :
    ∃ st, consume run actions ⟨initialNamespace actions, [], actions.filter (·.optionStrings = [])⟩
        (canonArgs actions args) = .ok st ∧ st.pending = [] ∧
      ns = convertDefaults run st.written actions [] st.ns := by
  unfold parseArgs at h
  split at h
  · cases h
  · split at h
    · cases h
    · rename_i line hline
      rw [← resolveArgs_ok hline]
      split at h
      · cases h
      · rename_i st hst
        split at h
        · cases h
        · rename_i hempty
          exact ⟨st, hst, by simpa using hempty, (Except.ok.inj h).symm⟩

theorem parseArgs_supported {actions : List (Action τ)} {args : List Arg} {ns : Dict PyValue}
    (h : parseArgs run actions args = .ok ns) : ∀ a ∈ actions, a.supported := by
  unfold parseArgs at h
  split at h
  · cases h
  · rename_i hfind
    intro a ha
    simpa using List.find?_eq_none.mp hfind a ha

theorem Action.store_of_supported {a : Action τ} (hs : a.supported) (hp : a.optionStrings = []) :
    a.kind = .store ∧ a.nargs = none := by
  unfold Action.supported at hs
  cases hk : a.kind <;> simp_all

theorem length_tokens (args : List Arg) :
    (args.filterMap Arg.token?).length = (args.filter Arg.isPos).length := by
  induction args with
  | nil => rfl
  | cons arg args ih => cases arg <;> simp [Arg.token?, Arg.isPos, List.filter_cons, ih]

theorem parseArgs_positionals {actions : List (Action τ)} {args : List Arg} {ns : Dict PyValue}
    (h : parseArgs run actions args = .ok ns) :
    (args.filter Arg.isPos).length = (actions.filter (·.optionStrings = [])).length := by
  obtain ⟨st, hst, hnil, -⟩ := parseArgs_ok run h
  obtain ⟨hlen, hdrop⟩ := consume_pending run hst
  rw [hnil] at hdrop
  have := List.drop_eq_nil_iff.mp hdrop.symm
  rw [← length_tokens, canonArgs_tokens, length_tokens] at hlen this
  simp only at hlen this
  omega

theorem consume_get {actions : List (Action τ)} {k : PyValue} :
    ∀ {st st' : ParseState τ} {args : List Arg}, consume run actions st args = .ok st' →
      (st.ns.get k).isSome → (st'.ns.get k).isSome := by
  intro st st' args h hk
  induction args generalizing st with
  | nil => cases h; exact hk
  | cons arg args ih =>
      simp only [consume] at h
      split at h
      · rename_i st₁ h₁
        obtain ⟨k', v, hns⟩ := parseStep_ns run h₁
        exact ih h (hns ▸ Dict.isSome_get_set v hk)
      · cases h

theorem convertDefaults_get (written : List String) {k : PyValue} :
    ∀ (actions : List (Action τ)) (firsts : List String) (ns : Dict PyValue),
      (ns.get k).isSome → ((convertDefaults run written actions firsts ns).get k).isSome := by
  intro actions
  induction actions with
  | nil => intro _ _ h; exact h
  | cons a as ih =>
      intro firsts ns h
      apply ih
      split
      · split
        · exact Dict.isSome_get_set _ h
        · exact h
      · exact h

theorem parseArgs_get {actions : List (Action τ)} {args : List Arg} {ns : Dict PyValue}
    (h : parseArgs run actions args = .ok ns) :
    ∀ a ∈ actions, (ns.get (.str a.dest)).isSome := by
  intro a ha
  obtain ⟨st, hst, -, rfl⟩ := parseArgs_ok run h
  exact convertDefaults_get run _ _ _ _ (consume_get run hst (initialNamespace_get actions a ha))

/-! ### The value a destination holds -/

def optionWrites (actions : List (Action τ)) (d : String) : Option PyValue → List Arg → Option PyValue
  | v, [] => v
  | v, .pos _ :: args => optionWrites actions d v args
  | v, .opt o value :: args =>
    optionWrites actions d (match actions.find? (·.optionStrings.contains o) with
      | some a => if a.dest = d then (a.optionValue run o value).toOption else v
      | none => v) args

theorem consume_get_eq {actions : List (Action τ)} {d : String} :
    ∀ {st st' : ParseState τ} {args : List Arg}, consume run actions st args = .ok st' →
      (∀ a ∈ st.pending, a.dest ≠ d) →
      st'.ns.get (.str d) = optionWrites run actions d (st.ns.get (.str d)) args := by
  intro st st' args h hpend
  induction args generalizing st with
  | nil => cases h; rfl
  | cons arg args ih =>
      simp only [consume] at h
      split at h
      · rename_i st₁ h₁
        rcases parseStep_ok run h₁ with ⟨t, a, rest, v, rfl, hp, -, rfl⟩ |
          ⟨o, value, a, v, rfl, ha, hv, rfl⟩
        · have hne : PyValue.str a.dest ≠ .str d := fun e =>
            hpend a (hp ▸ List.mem_cons_self _ _) (PyValue.str.inj e)
          rw [ih h fun b hb => hpend b (hp ▸ List.mem_cons_of_mem _ hb), Dict.get_set, if_neg hne]
          rfl
        · rw [ih h hpend, Dict.get_set]
          simp only [optionWrites, ha, hv, Except.toOption]
          by_cases had : a.dest = d <;> simp [had]
      · cases h

theorem consume_opt {actions : List (Action τ)} :
    ∀ {st st' : ParseState τ} {args : List Arg}, consume run actions st args = .ok st' →
      ∀ o value, .opt o value ∈ args → ∃ a v, actions.find? (·.optionStrings.contains o) = some a ∧
        a.optionValue run o value = .ok v := by
  intro st st' args h
  induction args generalizing st with
  | nil => intro _ _ hm; cases hm
  | cons arg args ih =>
      simp only [consume] at h
      split at h
      · rename_i st₁ h₁
        intro o value hm
        rcases List.mem_cons.mp hm with rfl | hm
        · rcases parseStep_ok run h₁ with ⟨-, -, -, -, ⟨⟩, -⟩ | ⟨o', value', a, v, ⟨⟩, ha, hv, -⟩
          exact ⟨a, v, ha, hv⟩
        · exact ih h o value hm
      · cases h

/-! ### The value a positional holds -/

theorem consume_written {actions : List (Action τ)} :
    ∀ {st st' : ParseState τ} {args : List Arg}, consume run actions st args = .ok st' →
      st.written <:+ st'.written := by
  intro st st' args h
  induction args generalizing st with
  | nil => cases h; exact List.suffix_refl _
  | cons arg args ih =>
      simp only [consume] at h
      split at h
      · rename_i st₁ h₁
        have hw : st.written <:+ st₁.written := by
          rcases parseStep_ok run h₁ with ⟨-, -, -, -, -, -, -, rfl⟩ | ⟨-, -, -, -, -, -, -, rfl⟩ <;>
            exact List.suffix_cons _ _
        exact hw.trans (ih h)
      · cases h

theorem optionWrites_frame {actions : List (Action τ)} {d : String}
    (hopt : ∀ b ∈ actions, b.dest = d → b.optionStrings = []) :
    ∀ (args : List Arg) (v : Option PyValue), optionWrites run actions d v args = v := by
  intro args
  induction args with
  | nil => intro v; rfl
  | cons arg args ih =>
      intro v
      cases arg with
      | pos t => exact ih v
      | opt o value =>
          simp only [optionWrites]
          split
          · rename_i b hb
            have hne : b.dest ≠ d := fun hbd => by
              have hc : b.optionStrings.contains o :=
                List.find?_some (p := fun x : Action τ => x.optionStrings.contains o) hb
              simp [hopt b (List.mem_of_find?_eq_some hb) hbd] at hc
            rw [if_neg hne, ih]
          · exact ih v

theorem consume_get_pos {actions : List (Action τ)} {a : Action τ}
    (hopt : ∀ b ∈ actions, b.dest = a.dest → b.optionStrings = []) :
    ∀ {st st' : ParseState τ} {args : List Arg} {i : Nat}, consume run actions st args = .ok st' →
      (st.pending.map (·.dest)).Nodup → st.pending[i]? = some a →
      i < (args.filterMap Arg.token?).length →
      ∃ t v, (args.filterMap Arg.token?)[i]? = some t ∧ a.storeValue run t = .ok v ∧
        st'.ns.get (.str a.dest) = some v ∧ a.dest ∈ st'.written := by
  intro st st' args i h hnd ha hi
  induction args generalizing st i with
  | nil => cases hi
  | cons arg args ih =>
      simp only [consume] at h
      split at h
      · rename_i st₁ h₁
        rcases parseStep_ok run h₁ with ⟨t, b, rest, v, rfl, hp, hv, rfl⟩ |
          ⟨o, value, b, v, rfl, -, -, rfl⟩
        · rw [hp, List.map_cons, List.nodup_cons] at hnd
          cases i with
          | zero =>
              obtain rfl : b = a := by simpa [hp] using ha
              have hrest : ∀ c ∈ rest, c.dest ≠ b.dest := fun c hc e =>
                hnd.1 (e ▸ List.mem_map_of_mem _ hc)
              refine ⟨t, v, by simp [Arg.token?], hv, ?_,
                (consume_written run h).subset (List.mem_cons_self _ _)⟩
              rw [consume_get_eq run h hrest, optionWrites_frame run hopt, Dict.get_set, if_pos rfl]
          | succ k =>
              rw [hp] at ha
              obtain ⟨t', v', ht, hrest⟩ := ih h hnd.2 (by simpa using ha) (by simpa [Arg.token?] using hi)
              exact ⟨t', v', by simpa [Arg.token?] using ht, hrest⟩
        · obtain ⟨t', v', ht, hrest⟩ := ih h hnd ha (by simpa [Arg.token?] using hi)
          exact ⟨t', v', by simpa [Arg.token?] using ht, hrest⟩
      · cases h

theorem convertDefaults_get_of_mem {written : List String} {d : String} :
    ∀ (actions : List (Action τ)) (firsts : List String) (ns : Dict PyValue),
      d ∈ firsts ∨ d ∈ written →
      (convertDefaults run written actions firsts ns).get (.str d) = ns.get (.str d) := by
  intro actions
  induction actions with
  | nil => intro _ _ _; rfl
  | cons a as ih =>
      intro firsts ns hd
      rw [convertDefaults, ih _ _ (hd.imp_left (List.mem_cons_of_mem _))]
      split
      · rename_i hw
        split
        · have hne : PyValue.str a.dest ≠ .str d := fun e => by
            obtain rfl := PyValue.str.inj e
            exact hd.elim hw.1 hw.2
          rw [Dict.get_set, if_neg hne]
        · rfl
      · rfl

theorem parseArgs_get_pos {actions : List (Action τ)} {args : List Arg} {ns : Dict PyValue}
    (h : parseArgs run actions args = .ok ns) {a : Action τ} {i : Nat}
    (hnd : ((actions.filter (·.optionStrings = [])).map (·.dest)).Nodup)
    (ha : (actions.filter (·.optionStrings = []))[i]? = some a)
    (hopt : ∀ b ∈ actions, b.dest = a.dest → b.optionStrings = []) :
    ∃ t v, (args.filterMap Arg.token?)[i]? = some t ∧ a.storeValue run t = .ok v ∧
      ns.get (.str a.dest) = some v := by
  have hi : i < ((canonArgs actions args).filterMap Arg.token?).length := by
    rw [canonArgs_tokens, length_tokens, parseArgs_positionals run h]
    exact (List.getElem?_eq_some_iff.mp ha).1
  obtain ⟨st, hst, -, rfl⟩ := parseArgs_ok run h
  obtain ⟨t, v, ht, hv, hget, hw⟩ := consume_get_pos run hopt hst hnd ha hi
  rw [canonArgs_tokens] at ht
  exact ⟨t, v, ht, hv, by rw [convertDefaults_get_of_mem run _ _ _ (.inr hw), hget]⟩

/-! ### The value an option holds -/

def Action.parsedDefault (a : Action τ) : PyValue :=
  match a.default with
  | .str s => a.convert run s
  | v => v

theorem Action.parsedDefault_of_type {a : Action τ} (h : a.type = none) :
    a.parsedDefault run = a.default := by
  unfold Action.parsedDefault Action.convert
  split <;> simp_all

def Action.lastValue (a : Action τ) (o : String) : List Arg → Option PyValue
  | [] => none
  | .pos _ :: args => a.lastValue o args
  | .opt o' value :: args =>
    (a.lastValue o args).or (if o' = o then (a.optionValue run o value).toOption else none)

def Action.bareValue (a : Action τ) : PyValue :=
  match a.const with
  | .str s => a.convert run s
  | v => v

def lastOccurrence (o : String) : List Arg → Option (Option String)
  | [] => none
  | .pos _ :: args => lastOccurrence o args
  | .opt o' value :: args => (lastOccurrence o args).or (if o' = o then some value else none)

def lastToken (o : String) : List Arg → Option String
  | [] => none
  | .pos _ :: args => lastToken o args
  | .opt _ none :: args => lastToken o args
  | .opt o' (some t) :: args => (lastToken o args).or (if o' = o then some t else none)

theorem parseArgs_opt {actions : List (Action τ)} {args : List Arg} {ns : Dict PyValue}
    (h : parseArgs run actions args = .ok ns) :
    ∀ o value, .opt o value ∈ canonArgs actions args → ∃ a v,
      actions.find? (·.optionStrings.contains o) = some a ∧ a.optionValue run o value = .ok v :=
  have ⟨_, hst, _⟩ := parseArgs_ok run h
  consume_opt run hst

theorem optionWrites_or {actions : List (Action τ)} {d : String} :
    ∀ {args : List Arg}, (∀ o value, .opt o value ∈ args →
      ∃ a v, actions.find? (·.optionStrings.contains o) = some a ∧ a.optionValue run o value = .ok v) →
      ∀ v, optionWrites run actions d v args = (optionWrites run actions d none args).or v := by
  intro args hopt
  induction args with
  | nil => intro v; rfl
  | cons arg args ih =>
      have hrest := fun o value (hm : Arg.opt o value ∈ args) => hopt o value (List.mem_cons_of_mem _ hm)
      intro v
      cases arg with
      | pos t => exact ih hrest v
      | opt o value =>
          obtain ⟨a, w, ha, hw⟩ := hopt o value (List.mem_cons_self _ _)
          simp only [optionWrites, ha, hw, Except.toOption]
          rw [ih hrest, ih hrest (if a.dest = d then _ else _)]
          by_cases had : a.dest = d <;> simp only [had, if_true, if_false, Option.or_none]
          cases optionWrites run actions d none args <;> rfl

theorem consume_written_iff {actions : List (Action τ)} {d : String} :
    ∀ {st st' : ParseState τ} {args : List Arg}, consume run actions st args = .ok st' →
      (∀ a ∈ st.pending, a.dest ≠ d) →
      (d ∈ st'.written ↔ d ∈ st.written ∨ (optionWrites run actions d none args).isSome) := by
  intro st st' args h hpend
  induction args generalizing st with
  | nil => cases h; simp [optionWrites]
  | cons arg args ih =>
      simp only [consume] at h
      split at h
      · rename_i st₁ h₁
        rcases parseStep_ok run h₁ with ⟨t, a, rest, v, rfl, hp, -, rfl⟩ |
          ⟨o, value, a, v, rfl, ha, hv, rfl⟩
        · have hne : d ≠ a.dest := fun e => hpend a (hp ▸ List.mem_cons_self _ _) e.symm
          rw [ih h fun b hb => hpend b (hp ▸ List.mem_cons_of_mem _ hb)]
          simp [optionWrites, hne]
        · rw [ih h hpend]
          simp only [optionWrites, ha, hv, Except.toOption]
          by_cases had : a.dest = d
          · subst had
            simp [optionWrites_or run (consume_opt run h) (some v)]
          · simp [had, Ne.symm had]
      · cases h

theorem convertDefaults_get_default {written : List String} {d : String} (hd : d ∉ written) :
    ∀ (actions : List (Action τ)) (firsts : List String) (ns : Dict PyValue), d ∉ firsts →
      ns.get (.str d) = (actions.find? (·.dest = d)).map (·.default) →
      (convertDefaults run written actions firsts ns).get (.str d) =
        (actions.find? (·.dest = d)).map (·.parsedDefault run) := by
  intro actions
  induction actions with
  | nil => intro _ _ _ hns; simpa using hns
  | cons a as ih =>
      intro firsts ns hf hns
      rw [convertDefaults]
      by_cases had : a.dest = d
      · subst had
        rw [List.find?_cons_of_pos _ (by simp)] at hns ⊢
        rw [convertDefaults_get_of_mem run _ _ _ (.inl (List.mem_cons_self _ _)), if_pos ⟨hf, hd⟩]
        unfold Action.parsedDefault
        split <;> simp_all [Dict.get_set]
      · rw [List.find?_cons_of_neg _ (by simpa using had)] at hns ⊢
        refine ih _ _ (by simp [hf, Ne.symm had]) ?_
        have hne : PyValue.str a.dest ≠ .str d := fun e => had (PyValue.str.inj e)
        split
        · split <;> simp only [Dict.get_set, if_neg hne, hns]
        · exact hns

theorem parseArgs_get_option {actions : List (Action τ)} {args : List Arg} {ns : Dict PyValue}
    (h : parseArgs run actions args = .ok ns) {d : String}
    (hpos : ∀ a ∈ actions, a.optionStrings = [] → a.dest ≠ d) :
    ns.get (.str d) = (optionWrites run actions d none (canonArgs actions args)).or
      ((actions.find? (·.dest = d)).map (·.parsedDefault run)) := by
  have hopt := parseArgs_opt run h
  obtain ⟨st, hst, -, rfl⟩ := parseArgs_ok run h
  have hpend : ∀ a ∈ actions.filter (·.optionStrings = []), a.dest ≠ d := fun a ha =>
    hpos a (List.mem_filter.mp ha).1 (of_decide_eq_true (List.mem_filter.mp ha).2)
  have hv := consume_get_eq run hst hpend
  rw [optionWrites_or run hopt, initialNamespace_get_eq] at hv
  have hw := consume_written_iff run hst hpend
  cases hlast : optionWrites run actions d none (canonArgs actions args) with
  | some v =>
      rw [convertDefaults_get_of_mem run _ _ _ (.inr (hw.mpr (.inr (by simp [hlast])))), hv, hlast]
      rfl
  | none =>
      rw [hlast] at hv hw
      exact convertDefaults_get_default run (fun hd => by simpa using hw.mp hd) _ _ _
        (List.not_mem_nil _) hv

theorem parseArgs_get_none {actions : List (Action τ)} {args : List Arg} {ns : Dict PyValue}
    (h : parseArgs run actions args = .ok ns) {d : String} (hd : ∀ a ∈ actions, a.dest ≠ d) :
    ns.get (.str d) = none := by
  rw [parseArgs_get_option run h fun a ha _ => hd a ha,
    optionWrites_frame run (fun b hb hbd => absurd hbd (hd b hb)),
    List.find?_eq_none.mpr fun a ha had => hd a ha (of_decide_eq_true had)]
  rfl

theorem optionWrites_single {actions : List (Action τ)} {A : Action τ} {o : String}
    (ho : A.optionStrings = [o]) (hdest : ∀ b ∈ actions, b.dest = A.dest → b = A)
    (hfind : actions.find? (·.optionStrings.contains o) = some A) :
    ∀ {args : List Arg}, (∀ o value, .opt o value ∈ args →
      ∃ a v, actions.find? (·.optionStrings.contains o) = some a ∧ a.optionValue run o value = .ok v) →
      optionWrites run actions A.dest none args = A.lastValue run o args := by
  intro args hopt
  induction args with
  | nil => rfl
  | cons arg args ih =>
      have hrest := fun o value (hm : Arg.opt o value ∈ args) => hopt o value (List.mem_cons_of_mem _ hm)
      cases arg with
      | pos t => exact ih hrest
      | opt o' value =>
          simp only [optionWrites, Action.lastValue]
          rw [optionWrites_or run hrest, ih hrest]
          congr 1
          by_cases ho' : o' = o
          · subst ho'
            rw [hfind]
            simp
          · rw [if_neg ho']
            split
            · rename_i b hb
              have hbo : b.optionStrings.contains o' :=
                List.find?_some (p := fun x : Action τ => x.optionStrings.contains o') hb
              refine if_neg fun hbd => ?_
              rw [hdest b (List.mem_of_find?_eq_some hb) hbd, ho] at hbo
              exact ho' (by simpa using hbo)
            · rfl

theorem parseArgs_get_single {actions : List (Action τ)} {args : List Arg} {ns : Dict PyValue}
    (h : parseArgs run actions args = .ok ns) {A : Action τ} {o : String} (hA : A ∈ actions)
    (ho : A.optionStrings = [o]) (hdest : ∀ b ∈ actions, b.dest = A.dest → b = A)
    (hname : ∀ b ∈ actions, b.optionStrings.contains o → b = A) :
    ns.get (.str A.dest) =
        some ((A.lastValue run o (canonArgs actions args)).getD (A.parsedDefault run)) ∧
      ∀ value, .opt o value ∈ canonArgs actions args → ∃ v, A.optionValue run o value = .ok v := by
  have hfind : actions.find? (·.optionStrings.contains o) = some A :=
    find?_of_unique hA (by simp [ho]) hname
  refine ⟨?_, fun value hm => ?_⟩
  · rw [parseArgs_get_option run h fun b hb hbo hbd => by simp [hdest b hb hbd, ho] at hbo,
      find?_of_unique hA (by simp) fun b hb hbd => hdest b hb (of_decide_eq_true hbd),
      optionWrites_single run ho hdest hfind (parseArgs_opt run h)]
    cases A.lastValue run o (canonArgs actions args) <;> rfl
  · obtain ⟨b, v, hb, hv⟩ := parseArgs_opt run h o value hm
    obtain rfl := Option.some.inj (hb.symm.trans hfind)
    exact ⟨v, hv⟩

theorem Action.optionValue_store {a : Action τ} (hk : a.kind = .store) {o : String}
    {value : Option String} {v : PyValue} (h : a.optionValue run o value = .ok v) :
    v = value.elim (a.bareValue run) (a.convert run) := by
  cases value with
  | some t =>
      simp only [Action.optionValue, hk] at h
      exact (Action.storeValue_ok run h).1
  | none =>
      simp only [Action.optionValue, hk] at h
      split at h
      · unfold Action.bareValue
        split at h
        · exact (Action.storeValue_ok run h).1
        · rename_i hc
          obtain rfl := Except.ok.inj h
          simp [hc]
      · cases h

theorem Action.lastValue_store {a : Action τ} {o : String} (hk : a.kind = .store) :
    ∀ {args : List Arg}, (∀ value, .opt o value ∈ args → ∃ v, a.optionValue run o value = .ok v) →
      a.lastValue run o args =
        (lastOccurrence o args).map (·.elim (a.bareValue run) (a.convert run)) := by
  intro args hok
  induction args with
  | nil => rfl
  | cons arg args ih =>
      have hrest := fun value (hm : Arg.opt o value ∈ args) => hok value (List.mem_cons_of_mem _ hm)
      rcases arg with t | ⟨o', value⟩
      · exact ih hrest
      · by_cases ho : o' = o
        · subst ho
          obtain ⟨v, hv⟩ := hok value (List.mem_cons_self _ _)
          simp only [Action.lastValue, lastOccurrence, if_true, hv, Except.toOption, ih hrest,
            Action.optionValue_store run hk hv]
          cases lastOccurrence o' args <;> rfl
        · simp [Action.lastValue, lastOccurrence, ho, ih hrest]

theorem lastOccurrence_of_isSome {o : String} :
    ∀ {args : List Arg}, (∀ value, .opt o value ∈ args → value.isSome) →
      lastOccurrence o args = (lastToken o args).map some := by
  intro args h
  induction args with
  | nil => rfl
  | cons arg args ih =>
      have hrest := fun value (hm : Arg.opt o value ∈ args) => h value (List.mem_cons_of_mem _ hm)
      rcases arg with t | ⟨o', _ | t⟩
      · exact ih hrest
      · by_cases ho : o' = o
        · subst ho
          exact absurd (h none (List.mem_cons_self _ _)) (by simp)
        · simp [lastOccurrence, lastToken, ho, ih hrest]
      · by_cases ho : o' = o
        · subst ho
          simp only [lastOccurrence, lastToken, if_true, ih hrest]
          cases lastToken o' args <;> rfl
        · simp [lastOccurrence, lastToken, ho, ih hrest]

theorem Action.lastValue_const {a : Action τ} {o : String} (hk : a.kind ≠ .store) :
    ∀ {args : List Arg}, (∀ value, .opt o value ∈ args → ∃ v, a.optionValue run o value = .ok v) →
      a.lastValue run o args = if .opt o none ∈ args then some a.const else none := by
  intro args hok
  induction args with
  | nil => simp [Action.lastValue]
  | cons arg args ih =>
      have hrest := fun value (hm : Arg.opt o value ∈ args) => hok value (List.mem_cons_of_mem _ hm)
      rcases arg with t | ⟨o', value⟩
      · simp [Action.lastValue, ih hrest]
      · by_cases ho : o' = o
        · subst ho
          obtain ⟨v, hv⟩ := hok value (List.mem_cons_self _ _)
          cases value with
          | some t => cases hkd : a.kind <;> simp [Action.optionValue, hkd] at hv hk
          | none =>
              have hc : a.optionValue run o' none = .ok a.const := by
                cases hkd : a.kind <;> simp [Action.optionValue, hkd] at hk ⊢
              simp only [Action.lastValue, if_true, hc, Except.toOption, ih hrest]
              split <;> simp
        · simp [Action.lastValue, ho, Ne.symm ho, ih hrest]

/-- The action `A` owns the option string `o` in a parser: `o` is its one option string, no other
action holds `o`, and no other action stores at its destination. -/
structure Owns (actions : List (Action τ)) (o : String) (A : Action τ) : Prop where
  mem : A ∈ actions
  options : A.optionStrings = [o]
  dest_unique : ∀ b ∈ actions, b.dest = A.dest → b = A
  option_unique : ∀ b ∈ actions, b.optionStrings.contains o → b = A

namespace Owns

variable {actions : List (Action τ)} {o : String} {A : Action τ} {args : List Arg}
  {ns : Dict PyValue}

theorem get_store (h : Owns actions o A) (hk : A.kind = .store) (hn : A.nargs ≠ some "?")
    (hp : parseArgs run actions args = .ok ns) :
    ns.get (.str A.dest) = some (((lastToken o (canonArgs actions args)).map (A.convert run)).getD
      (A.parsedDefault run)) := by
  obtain ⟨hget, hok⟩ := parseArgs_get_single run hp h.mem h.options h.dest_unique h.option_unique
  have hsome : ∀ value, .opt o value ∈ canonArgs actions args → value.isSome := fun value hm => by
    obtain ⟨v, hv⟩ := hok value hm
    cases value with
    | some _ => rfl
    | none => simp [Action.optionValue, hk, hn] at hv
  rw [Action.lastValue_store run hk hok, lastOccurrence_of_isSome hsome, Option.map_map] at hget
  exact hget

theorem get_const (h : Owns actions o A) (hk : A.kind ≠ .store)
    (hp : parseArgs run actions args = .ok ns) :
    ns.get (.str A.dest) =
      some (if .opt o none ∈ canonArgs actions args then A.const else A.parsedDefault run) := by
  obtain ⟨hget, hok⟩ := parseArgs_get_single run hp h.mem h.options h.dest_unique h.option_unique
  rw [hget, Action.lastValue_const run hk hok]
  split <;> rfl

theorem append (h : Owns actions o A) {more : List (Action τ)}
    (hm : ∀ b ∈ more, b.optionStrings.contains o = false ∧ b.dest ≠ A.dest) :
    Owns (actions ++ more) o A := by
  refine ⟨List.mem_append_left _ h.mem, h.options, fun b hb hbd => ?_, fun b hb hbo => ?_⟩
  · rcases List.mem_append.mp hb with hb | hb
    · exact h.dest_unique b hb hbd
    · exact absurd hbd (hm b hb).2
  · rcases List.mem_append.mp hb with hb | hb
    · exact h.option_unique b hb hbo
    · rw [(hm b hb).1] at hbo
      cases hbo

end Owns

/-! ### Two options as a switch -/

def lastFlag (enable disable : String) : List Arg → Option Bool
  | [] => none
  | .pos _ :: args => lastFlag enable disable args
  | .opt o _ :: args => (lastFlag enable disable args).or
    (if o = enable then some true else if o = disable then some false else none)

/-- Two options `E` and `D` of a parser that act as a switch of the destination `k`:
`store_const` options `enable` and `disable` with the constants `True` and `False`, the only
actions storing into `k` and the only ones with their option strings, `E` first. -/
structure Switch (actions : List (Action τ)) (k enable disable : String) (E D : Action τ) : Prop where
  mem_enable : E ∈ actions
  mem_disable : D ∈ actions
  enable_ne_disable : enable ≠ disable
  options_enable : E.optionStrings = [enable]
  options_disable : D.optionStrings = [disable]
  kind_enable : E.kind = .storeConst
  kind_disable : D.kind = .storeConst
  const_enable : E.const = .bool true
  const_disable : D.const = .bool false
  dests : ∀ a ∈ actions, a.dest = k ↔ a = E ∨ a = D
  first : actions.find? (·.dest = k) = some E
  unique_enable : ∀ a ∈ actions, a.optionStrings.contains enable → a = E
  unique_disable : ∀ a ∈ actions, a.optionStrings.contains disable → a = D

namespace Switch

variable {actions : List (Action τ)} {k enable disable : String} {E D : Action τ}

theorem optionValue_const {a : Action τ} (hk : a.kind = .storeConst) {o : String}
    {value : Option String} {w : PyValue} (h : a.optionValue run o value = .ok w) :
    value = none ∧ w = a.const := by
  cases value with
  | some t => simp [Action.optionValue, hk] at h
  | none => simp only [Action.optionValue, hk] at h; exact ⟨rfl, (Except.ok.inj h).symm⟩

theorem step_eq (hs : Switch actions k enable disable E D) {o : String} {value : Option String}
    {a : Action τ} {w : PyValue} (ha : actions.find? (·.optionStrings.contains o) = some a)
    (hw : a.optionValue run o value = .ok w) :
    (if a.dest = k then (a.optionValue run o value).toOption else none) =
      (if o = enable then some true else if o = disable then some false else none).map .bool := by
  have hmem := List.mem_of_find?_eq_some ha
  have hcont : a.optionStrings.contains o :=
    List.find?_some (p := fun x : Action τ => x.optionStrings.contains o) ha
  by_cases hen : o = enable
  · subst hen
    obtain rfl := hs.unique_enable a hmem hcont
    obtain ⟨-, rfl⟩ := optionValue_const run hs.kind_enable hw
    simp [hw, hs.const_enable, (hs.dests _ hs.mem_enable).mpr (.inl rfl), Except.toOption]
  · by_cases hdis : o = disable
    · subst hdis
      obtain rfl := hs.unique_disable a hmem hcont
      obtain ⟨-, rfl⟩ := optionValue_const run hs.kind_disable hw
      simp [hw, hs.const_disable, (hs.dests _ hs.mem_disable).mpr (.inr rfl), hen, Except.toOption]
    · have hak : a.dest ≠ k := fun hak => by
        rcases (hs.dests a hmem).mp hak with rfl | rfl
        · simp [hs.options_enable] at hcont; exact hen hcont
        · simp [hs.options_disable] at hcont; exact hdis hcont
      simp [hak, hen, hdis]

theorem optionWrites_eq (hs : Switch actions k enable disable E D) :
    ∀ (args : List Arg), (∀ o value, .opt o value ∈ args → ∃ a w,
      actions.find? (·.optionStrings.contains o) = some a ∧ a.optionValue run o value = .ok w) →
      optionWrites run actions k none args = (lastFlag enable disable args).map .bool := by
  intro args
  induction args with
  | nil => intro _; rfl
  | cons arg args ih =>
      intro hopt
      have hrest := fun o value hm => hopt o value (List.mem_cons_of_mem arg hm)
      cases arg with
      | pos t => exact ih hrest
      | opt o value =>
          obtain ⟨a, w, ha, hw⟩ := hopt o value (List.mem_cons_self _ _)
          simp only [optionWrites, lastFlag, ha]
          rw [optionWrites_or run hrest, ih hrest, hs.step_eq run ha hw]
          cases lastFlag enable disable args <;> rfl

theorem parseArgs_get (hs : Switch actions k enable disable E D) {args : List Arg}
    {ns : Dict PyValue} (h : parseArgs run actions args = .ok ns) :
    ns.get (.str k) = some (((lastFlag enable disable (canonArgs actions args)).map .bool).getD
      (E.parsedDefault run)) := by
  have hpos : ∀ a ∈ actions, a.optionStrings = [] → a.dest ≠ k := fun a ha hnil hak => by
    rcases (hs.dests a ha).mp hak with rfl | rfl
    · simp [hs.options_enable] at hnil
    · simp [hs.options_disable] at hnil
  rw [parseArgs_get_option run h hpos, hs.first, hs.optionWrites_eq run _ (parseArgs_opt run h)]
  cases lastFlag enable disable (canonArgs actions args) <;> rfl

end Switch

end Lemmas

end Argparse

end Provisioner
