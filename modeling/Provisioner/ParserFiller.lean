import Provisioner.Attrs
import Provisioner.Argparse

/-!
# ParserFiller

`AttrParserArgs` turns an attrs field with parser metadata into the name and keyword arguments
of one `add_argument` call; `ParserFiller.prepare_args` collects them for a class, expanding a
`store_bool` field into an enable and a disable flag; `fill_parser` adds them to a parser; and
`extract_args` and `from_args` read a parse back into a call of the class. What the round trip
through these functions keeps is proved in `Provisioner.ParserRoundTrip`.

Where an argument lands is decided twice. The parser names its destination after the argument
(or after an explicit `dest`), while `extract_args` looks a field up under
`f"{parser_prefix}{field.name}".replace('-', '_')`.
-/

namespace Provisioner

open Argparse

/-- `attr_parser_cls`: `AttrParserArgs`, or `InputAttrParserArgs`, which reads `None` as
`UNCHANGED`. -/
inductive ParserCls where
  | attrParserArgs
  | inputAttrParserArgs
  deriving DecidableEq

/-- The callable `AttrParserArgs.type` holds: `functools.partial(cls.value_from_str, v_type=...)`,
or the callable the metadata names. -/
inductive Decoder where
  | valueFromStr (cls : ParserCls) (vType : AttrType)
  | callable (id : Nat)
  deriving DecidableEq

/-- The functions of modules outside the source that the parser glue calls:
`values.value_from_str`, `serialize.loads`, the callables parser metadata names, `attr.asdict` on
one attribute value, and the lookup of a key path in the CLI spec. `attr.asdict` rebuilds attrs
instances and collections only: every other value comes back as it is. -/
structure Runtime where
  valueFromStr : String → PyValue
  loads : String → PyValue
  callable : Nat → String → PyValue
  asdict : PyValue → PyValue
  cliSpec : String → Option ParserMeta
  asdict_plain : ∀ v, (∀ i t s, v ≠ .obj i t s) → asdict v = v

/-- What the parser's `type` callable makes of a token. -/
def Decoder.run (rt : Runtime) : Decoder → String → PyValue
  | .valueFromStr cls vType, s =>
    let v : PyValue := match rt.valueFromStr s with
      | .special .none => .none
      | .str t => if vType = .list ∨ vType = .json then rt.loads s else .str t
      | v => v
    match cls, v with
    | .inputAttrParserArgs, .none => .special .unchanged
    | _, v => v
  | .callable id, s => rt.callable id s

/-- An `AttrParserArgs` instance, without `_attr` and `prefix`, which `kwargs` leaves out. -/
structure AttrParserArgs where
  name : String
  action : String
  metavar : Option String
  dest : Option String
  default : PyValue
  const : PyValue
  choices : Option (List String)
  help : String
  type : Decoder
  nargs : Option String

inductive PrepareError where
  | valueError (message : String)
  | keyError (key : String)
  deriving DecidableEq

/-- `getattr(type, '__name__', None)` of a truthy annotation. -/
def AttrType.typeName : AttrType → Option String
  | .bool => some "bool"
  | .list => some "List"
  | .named n => some n
  | .none | .json => Option.none

/-- `f"{prefix}{name}"` when the prefix is truthy, else the name. -/
def withPrefix (pfx : Option String) (name : String) : String :=
  match pfx with
  | some p => if p = "" then name else p ++ name
  | none => name

/-- `AttrParserArgs(_attr, prefix=prefix)`, with `m` the field's parser metadata. -/
def AttrParserArgs.init (cls : ParserCls) (a : Attribute) (m : ParserMeta) (pfx : Option String) :
    Except PrepareError AttrParserArgs :=
  if "__".toList.isPrefixOf a.name.toList then
    .error (.valueError (a.name ++ ": multiple leading underscores are not expected"))
  else
    let name := withPrefix pfx (lstripChar '_' a.name)
    let choices := if m.choices = [] then none else some m.choices
    let defaultAction := if a.type = .bool then "store_true" else "store"
    let action := match m.action with
      | some act => if act = "" then defaultAction else act
      | none => defaultAction
    let type := match m.type with
      | some i => .callable i
      | none => .valueFromStr cls a.type
    let help := match choices with
      | some cs => m.help.getD "" ++ " [choices: " ++ ", ".intercalate cs ++ "]"
      | none => m.help.getD ""
    let nargs := match m.nargs with
      | some n => if n = "" then none else some n
      | none => none
    match a.default.value? with
    | none => .ok ⟨name, action, none, m.dest, .none, m.const.getD .none, choices, help, type, nargs⟩
    | some d =>
      let metavar := if (m.metavar.getD "") = "" ∧ a.type ≠ .none then a.type.typeName else m.metavar
      .ok ⟨"--" ++ replaceChar '_' '-' name, action, metavar.map String.toUpper, m.dest,
        m.default.getD d, m.const.getD .none, choices, help, type, nargs⟩

def AttrParserArgs.isFlag (p : AttrParserArgs) : Bool :=
  p.action = "store_true" ∨ p.action = "store_false"

/-- `AttrParserArgs.kwargs`: `attr.asdict` of the instance, filtered. -/
def AttrParserArgs.kwargs (rt : Runtime) (p : AttrParserArgs) : Kwargs Decoder where
  action := p.action
  metavar := if p.isFlag then none else some p.metavar
  dest := p.dest
  default := if p.isFlag then none else some (rt.asdict p.default)
  const := if p.const = .none then none else some (rt.asdict p.const)
  choices := p.choices
  help := p.help
  type := if p.isFlag ∨ p.action = "store_const" then none else some p.type
  nargs := p.nargs

/-- One flag of a `store_bool` field: the field copied under `name` and `default`, its metadata
storing `const` into the field's own name. -/
def storeBoolFlag (rt : Runtime) (cls : ParserCls) (pfx : Option String) (a : Attribute)
    (m : ParserMeta) (help name : String) (default : AttrDefault) (word : String) (const : Bool) :
    Except PrepareError (String × Kwargs Decoder) :=
  let m' : ParserMeta :=
    { m with
      help := some (word ++ " " ++ help)
      action := some "store_const"
      const := some (.bool const)
      dest := some a.name }
  (AttrParserArgs.init cls (a.copy name default m') m' pfx).map fun p => (p.name, p.kwargs rt)

/-- The entries `prepare_args` writes for one parser field: its argument, or for `store_bool`
the enable flag and the `no`-prefixed disable flag, both storing into the field's name. -/
def fieldEntries (rt : Runtime) (cls : ParserCls) (pfx : Option String) (a : Attribute)
    (m : ParserMeta) : Except PrepareError (List (String × Kwargs Decoder)) :=
  if m.action = some "store_bool" then
    match m.help with
    | none => .error (.keyError "help")
    | some help =>
      match storeBoolFlag rt cls pfx a m help a.name a.default "enable" true,
        storeBoolFlag rt cls pfx a m help ("no" ++ a.name) (.value (.bool !a.default.truthy))
          "disable" false with
      | .ok e, .ok d => .ok [e, d]
      | .error err, _ | .ok _, .error err => .error err
  else (AttrParserArgs.init cls a m pfx).map fun p => [(p.name, p.kwargs rt)]

/-- `getattr(cls, 'parser_prefix', None)`, as `prepare_args` reads it. -/
def PrefixAttr.prepareValue : PrefixAttr → Option String
  | .str s => some s
  | _ => Option.none

/-- `getattr(cls, 'parser_prefix', '')`, as the f-string of `extract_args` renders it. -/
def PrefixAttr.extractText : PrefixAttr → String
  | .absent => ""
  | .none => "None"
  | .str s => s

/-- The parser metadata of a field: `KeyPath(metadata).value(cli_spec)` for a key path. -/
def resolveMeta (rt : Runtime) : ParserMetaSource → Except PrepareError ParserMeta
  | .inline m => .ok m
  | .cliSpec path => match rt.cliSpec path with
    | some m => .ok m
    | none => .error (.keyError path)

def parserEntries (rt : Runtime) (cls : ParserCls) (pfx : Option String) :
    List Attribute → Except PrepareError (List (String × Kwargs Decoder))
  | [] => .ok []
  | a :: as => match a.parser with
    | none => parserEntries rt cls pfx as
    | some src => match resolveMeta rt src with
      | .error e => .error e
      | .ok m => match fieldEntries rt cls pfx a m, parserEntries rt cls pfx as with
        | .ok es, .ok rest => .ok (es ++ rest)
        | .error e, _ | .ok _, .error e => .error e

/-- `ParserFiller.prepare_args(cls, attr_parser_cls)`: the dict from argument name to keyword
arguments, where a later entry of an existing name replaces its value. -/
def prepareArgs (rt : Runtime) (cls : ParserCls) (c : AttrsClass) :
    Except PrepareError (Dict (Kwargs Decoder)) :=
  (parserEntries rt cls c.parserPrefix.prepareValue c.fields).map
    fun es => Dict.ofList (es.map fun e => (.str e.1, e.2))

/-- `parser.add_argument(name, **kwargs)` for each entry, in order. -/
def addArguments : List (Action Decoder) → Dict (Kwargs Decoder) → Except AddError (List (Action Decoder))
  | parser, [] => .ok parser
  | parser, (.str name, kw) :: rest => match addArgument parser name kw with
    | .ok parser' => addArguments parser' rest
    | .error e => .error e
  | parser, _ :: rest => addArguments parser rest

inductive FillError where
  | prepare (e : PrepareError)
  | add (e : AddError)
  deriving DecidableEq

/-- `ParserFiller.fill_parser(cls, parser, attr_parser_cls)` on an empty parser. -/
def fillParser (rt : Runtime) (cls : ParserCls) (c : AttrsClass) : Except FillError (List (Action Decoder)) :=
  match prepareArgs rt cls c with
  | .error e => .error (.prepare e)
  | .ok args => (addArguments [] args).mapError .add

/-- The key `extract_args` looks a field up under. -/
def extractKey (c : AttrsClass) (a : Attribute) : String :=
  replaceChar '-' '_' (c.parserPrefix.extractText ++ a.name)

def extractStep (c : AttrsClass) (positional optional pop : Bool)
    (acc : Dict PyValue × Dict PyValue × Dict PyValue) (a : Attribute) :
    Dict PyValue × Dict PyValue × Dict PyValue :=
  let key := PyValue.str (extractKey c a)
  match a.parser, acc.2.2.get key with
  | some _, some v =>
    let rest := if pop then acc.2.2.erase key else acc.2.2
    if positional ∧ a.default = .nothing then (acc.1.set (.str a.name) v, acc.2.1, rest)
    else if optional ∧ a.default ≠ .nothing then (acc.1, acc.2.1.set (.str a.name) v, rest)
    else acc
  | _, _ => acc

/-- `ParserFiller.extract_args(cls, kwargs, positional, optional, pop)`: the positional values,
the keywords, and what is left of the parse. -/
def extractArgs (c : AttrsClass) (kwargs : Dict PyValue) (positional optional pop : Bool) :
    List PyValue × Dict PyValue × Dict PyValue :=
  let acc := c.fields.foldl (extractStep c positional optional pop) ([], [], kwargs)
  (acc.1.map (·.2), acc.2.1, acc.2.2)

/-- `ParserFiller.extract_positional_args(cls, kwargs)`: the mandatory fields' values, and the
parse without them. -/
def extractPositionalArgs (c : AttrsClass) (kwargs : Dict PyValue) : List PyValue × Dict PyValue :=
  let r := extractArgs c kwargs true false true
  (r.1, r.2.2)

/-- `ParserFiller.extract_optional_args(cls, parsed_args)`: the keywords of the fields with a
default, and the parse without them. -/
def extractOptionalArgs (c : AttrsClass) (parsed : Dict PyValue) : Dict PyValue × Dict PyValue :=
  let r := extractArgs c parsed false true true
  (r.2.1, r.2.2)

/-- The `parsed_args` of `from_args`: an `argparse.Namespace` or a dict, both admitted by its
signature. -/
inductive ParsedArgs where
  | namespace (ns : Dict PyValue)
  | dict (d : Dict PyValue)
  deriving DecidableEq

/-- Why `from_args` raises: `_parsed_args` is only assigned for a `Namespace`
(`UnboundLocalError`), or the call of the class raises. -/
inductive ParserFiller.FromArgsError where
  | unboundLocal
  | call (e : InitError)
  deriving DecidableEq

/-- `ParserFiller.from_args(cls, parsed_args, pop)`: the instance and the parse it returns. -/
def fromArgs (c : AttrsClass) (parsed : ParsedArgs) (pop : Bool) :
    Except ParserFiller.FromArgsError (List (String × PyValue) × ParsedArgs) :=
  match parsed with
  | .dict _ => .error .unboundLocal
  | .namespace ns =>
    let (args, kwargs, rest) := extractArgs c ns true true pop
    match c.call args kwargs with
    | .ok inst => .ok (inst, if pop then .dict rest else parsed)
    | .error e => .error (.call e)

end Provisioner
