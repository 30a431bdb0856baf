import Provisioner.ParserFiller

/-!
# The round trip through a parser

`fill_parser`, then `parse_args`, then `from_args` on the namespace: the instance built is what
calling the class directly returns, with each parser field set to the value the command line
gives it. The proof goes stage by stage.

* `fieldEntries_dest`: every argument `prepare_args` builds for a field stores under the key
  `extract_args` reads for it, `f"{parser_prefix}{field.name}".replace('-', '_')`.
* `fillParser_dests`: with distinct argument names, the parser holds exactly those arguments.
* `extractStep_foldl`: on a parse holding every key, `extract_args` gives the mandatory fields'
  values in order and the others' by name.
* `AttrsClass.bind_positional`: that call binds as the call with every value by keyword.
* `AttrsClass.RoundTrip.parsedValue_eq`: the parse holds, under each field's key, the value the
  command line gives the field (`AttrsClass.argValue`).

`AttrsClass.RoundTrip` collects what the schema must satisfy, and `fromArgs_roundTrip_breaks`
shows a schema or an input outside it for each condition.
-/

namespace Provisioner

open Argparse

/-! ## Names and keys -/

theorem derivedDest_option {s : String} (h₁ : s.toList.head? ≠ some '_')
    (h₂ : s.toList.head? ≠ some '-') :
    String.mk (derivedDest ("--" ++ replaceChar '_' '-' s)) = replaceChar '-' '_' s := by
  have hr : (replaceChar '_' '-' s).toList.dropWhile (· = '-') = (replaceChar '_' '-' s).toList := by
    show (s.toList.map _).dropWhile _ = s.toList.map _
    cases hs : s.toList with
    | nil => rfl
    | cons x xs =>
        have hx₁ : x ≠ '_' := fun e => h₁ (by rw [hs, e]; rfl)
        have hx₂ : x ≠ '-' := fun e => h₂ (by rw [hs, e]; rfl)
        rw [List.map_cons, List.dropWhile_cons_of_neg (by simp [hx₁, hx₂])]
  rw [← replaceChar_replaceChar]
  show String.mk (((_ :: _ :: (replaceChar '_' '-' s).toList)).dropWhile _ |>.map _) = _
  rw [List.dropWhile_cons_of_pos (by decide), List.dropWhile_cons_of_pos (by decide), hr]
  rfl

theorem isPositional_option (s : String) : isPositional ("--" ++ s) = false := by
  simp [isPositional]

theorem isPositional_of_head {s : String} (h : s.toList.head? ≠ some '-') : isPositional s = true := by
  simpa [isPositional] using h

theorem withPrefix_prepareValue {pp : PrefixAttr} (h : pp ≠ .none) (n : String) :
    withPrefix pp.prepareValue n = pp.extractText ++ n := by
  cases pp with
  | absent => exact String.ext rfl
  | none => exact absurd rfl h
  | str s =>
      by_cases hs : s = ""
      · subst hs
        exact String.ext rfl
      · simp [withPrefix, PrefixAttr.prepareValue, PrefixAttr.extractText, hs]

theorem no_name_ne_empty (n : String) : "no" ++ n ≠ "" := fun h =>
  nomatch (congrArg (fun s : String => s.toList.head?) h : some 'n' = none)

theorem copy_name_no (a : Attribute) (v : AttrDefault) (m : ParserMeta) :
    (a.copy ("no" ++ a.name) v m).name = "no" ++ a.name := by
  simp [Attribute.copy, no_name_ne_empty]

structure PrefixAttr.Plain (pp : PrefixAttr) : Prop where
  ne_none : pp ≠ .none
  no_dash : '-' ∉ pp.extractText.toList
  head_ne : pp.extractText.toList.head? ≠ some '_'

theorem extractKey_plain {c : AttrsClass} {a : Attribute} (hp : c.parserPrefix.Plain)
    (ha : '-' ∉ a.name.toList) (hu : a.name.toList.head? ≠ some '_') :
    extractKey c a = c.parserPrefix.extractText ++ a.name ∧
      '-' ∉ (extractKey c a).toList ∧ (extractKey c a).toList.head? ≠ some '_' := by
  have hdash : '-' ∉ (c.parserPrefix.extractText ++ a.name).toList := by
    simpa using ⟨hp.no_dash, ha⟩
  have hkey : extractKey c a = c.parserPrefix.extractText ++ a.name := replaceChar_of_not_mem hdash
  refine ⟨hkey, hkey ▸ hdash, ?_⟩
  have hh := hp.head_ne
  rw [hkey, String.toList, String.data_append]
  rw [String.toList] at hh hu
  cases hpt : c.parserPrefix.extractText.data with
  | nil => simpa using hu
  | cons x xs => simpa [hpt] using hh

theorem AttrsClass.extractKey_eq (c : AttrsClass) {a : Attribute} (ha : a ∈ c.fields) :
    extractKey c a = replaceChar '-' '_' c.parserPrefix.extractText ++ a.name := by
  rw [extractKey, replaceChar_append, replaceChar_of_not_mem (c.names_ident a ha)]

theorem AttrsClass.extractKeys_nodup (c : AttrsClass) :
    ((c.fields.filter (·.parser.isSome)).map (extractKey c)).Nodup :=
  ((c.names_nodup.of_map _).filter _).map_on fun x hx y hy e => by
    have hx := (List.mem_filter.mp hx).1
    have hy := (List.mem_filter.mp hy).1
    rw [c.extractKey_eq hx, c.extractKey_eq hy] at e
    have hname : x.name.data = y.name.data := List.append_cancel_left (congrArg String.data e)
    exact List.inj_on_of_nodup_map c.names_nodup hx hy (String.ext hname)

/-! ## What `prepare_args` and `fill_parser` build -/

theorem AttrParserArgs.init_name {cls : ParserCls} {a : Attribute} {m : ParserMeta}
    {pfx : Option String} {p : AttrParserArgs} (h : AttrParserArgs.init cls a m pfx = .ok p) :
    p.name = (if a.default = .nothing then withPrefix pfx (lstripChar '_' a.name)
      else "--" ++ replaceChar '_' '-' (withPrefix pfx (lstripChar '_' a.name))) ∧
      p.dest = m.dest := by
  unfold AttrParserArgs.init at h
  split at h
  · cases h
  · cases hd : a.default <;> simp only [hd, AttrDefault.value?] at h <;>
      obtain rfl := Except.ok.inj h <;> simp

theorem AttrParserArgs.init_ok {cls : ParserCls} {a : Attribute} {m : ParserMeta}
    {pfx : Option String} {p : AttrParserArgs} (h : AttrParserArgs.init cls a m pfx = .ok p)
    (hu : a.name.toList.head? ≠ some '_') :
    p.name = (if a.default = .nothing then withPrefix pfx a.name
      else "--" ++ replaceChar '_' '-' (withPrefix pfx a.name)) ∧ p.dest = m.dest := by
  simpa only [lstripChar_of_head hu] using AttrParserArgs.init_name h

theorem argDest_init {rt : Runtime} {cls : ParserCls} {b : Attribute} {m : ParserMeta}
    {pfx : Option String} {p : AttrParserArgs} (h : AttrParserArgs.init cls b m pfx = .ok p)
    (hu : b.name.toList.head? ≠ some '_') (hk : (withPrefix pfx b.name).toList.head? ≠ some '-') :
    argDest p.name (p.kwargs rt) = if b.default = .nothing then withPrefix pfx b.name
      else m.dest.getD (String.mk (derivedDest ("--" ++ replaceChar '_' '-' (withPrefix pfx b.name)))) := by
  obtain ⟨hn, hd⟩ := AttrParserArgs.init_ok h hu
  rw [hn]
  split
  · exact if_pos (isPositional_of_head hk)
  · rw [argDest, if_neg (by simp [isPositional_option]), show (p.kwargs rt).dest = m.dest from hd]
    cases m.dest <;> rfl

theorem storeBoolFlag_ok {rt : Runtime} {cls : ParserCls} {pfx : Option String} {a : Attribute}
    {m : ParserMeta} {help name word : String} {default : AttrDefault} {const : Bool}
    {e : String × Kwargs Decoder} (h : storeBoolFlag rt cls pfx a m help name default word const = .ok e)
    (hu : (a.copy name default m).name.toList.head? ≠ some '_') :
    e.1 = (if default = .nothing then withPrefix pfx (a.copy name default m).name
      else "--" ++ replaceChar '_' '-' (withPrefix pfx (a.copy name default m).name)) ∧
      e.2.dest = some a.name := by
  simp only [storeBoolFlag] at h
  obtain ⟨p, hi, rfl⟩ := exists_of_map_eq_ok h
  exact AttrParserArgs.init_ok hi hu

theorem storeBoolFlag_dest {rt : Runtime} {cls : ParserCls} {pfx : Option String} {a : Attribute}
    {m : ParserMeta} {help name word : String} {default : AttrDefault} {const : Bool}
    {e : String × Kwargs Decoder} (h : storeBoolFlag rt cls pfx a m help name default word const = .ok e)
    (hP : ∀ x, withPrefix pfx x = x) (hu : (a.copy name default m).name.toList.head? ≠ some '_')
    (hk : (a.copy name default m).name.toList.head? ≠ some '-')
    (hname : default = .nothing → (a.copy name default m).name = a.name) :
    argDest e.1 e.2 = a.name := by
  simp only [storeBoolFlag] at h
  obtain ⟨p, hi, rfl⟩ := exists_of_map_eq_ok h
  rw [argDest_init hi hu (by rwa [hP]), hP]
  split
  · exact hname ‹_›
  · rfl

theorem AttrParserArgs.init_optional {cls : ParserCls} {a : Attribute} {m : ParserMeta}
    {pfx : Option String} {p : AttrParserArgs} (h : AttrParserArgs.init cls a m pfx = .ok p)
    {d : PyValue} (hd : a.default.value? = some d) :
    p.dest = m.dest ∧ p.default = m.default.getD d ∧ p.const = m.const.getD .none ∧
      ∀ act, m.action = some act → act ≠ "" → p.action = act := by
  unfold AttrParserArgs.init at h
  split at h
  · cases h
  · simp only [hd] at h
    obtain rfl := Except.ok.inj h
    exact ⟨rfl, rfl, rfl, fun act h hne => by simp [h, hne]⟩

theorem storeBoolFlag_spec {rt : Runtime} {cls : ParserCls} {pfx : Option String}
    {a : Attribute} {m : ParserMeta} {help name word : String} {default : AttrDefault} {v : PyValue}
    (hv : default.value? = some v) {const : Bool} {e : String × Kwargs Decoder}
    (h : storeBoolFlag rt cls pfx a m help name default word const = .ok e) :
    e.2.action = "store_const" ∧ e.2.dest = some a.name ∧ e.2.const = some (.bool const) ∧
      e.2.default = some (rt.asdict (m.default.getD v)) ∧ e.2.type = none := by
  simp only [storeBoolFlag] at h
  obtain ⟨p, hi, rfl⟩ := exists_of_map_eq_ok h
  obtain ⟨hdest, hdef, hconst, hact⟩ := AttrParserArgs.init_optional hi (by simpa [Attribute.copy] using hv)
  have ha : p.action = "store_const" := hact _ rfl (by decide)
  refine ⟨ha, hdest, ?_, ?_, ?_⟩
  · simp [AttrParserArgs.kwargs, hconst, rt.asdict_plain (.bool const) nofun]
  · simp [AttrParserArgs.kwargs, AttrParserArgs.isFlag, ha, hdef]
  · simp [AttrParserArgs.kwargs, ha]

def AttrsClass.destOk (c : AttrsClass) (a : Attribute) (m : ParserMeta) : Prop :=
  (m.action = some "store_bool" → c.parserPrefix.extractText = "") ∧
    (m.action ≠ some "store_bool" → m.dest = none ∨ m.dest = some (extractKey c a))

instance (c : AttrsClass) (a : Attribute) (m : ParserMeta) : Decidable (c.destOk a m) :=
  inferInstanceAs (Decidable (_ ∧ _))

theorem fieldEntries_ok {rt : Runtime} {cls : ParserCls} {pfx : Option String} {a : Attribute}
    {m : ParserMeta} {es : List (String × Kwargs Decoder)}
    (h : fieldEntries rt cls pfx a m = .ok es) :
    (m.action = some "store_bool" ∧ ∃ help e d,
      storeBoolFlag rt cls pfx a m help a.name a.default "enable" true = .ok e ∧
      storeBoolFlag rt cls pfx a m help ("no" ++ a.name) (.value (.bool !a.default.truthy))
        "disable" false = .ok d ∧ es = [e, d]) ∨
    (m.action ≠ some "store_bool" ∧
      ∃ p, AttrParserArgs.init cls a m pfx = .ok p ∧ es = [(p.name, p.kwargs rt)]) := by
  unfold fieldEntries at h
  split_ifs at h with hsb
  · cases hhelp : m.help with
    | none => simp only [hhelp] at h; cases h
    | some help =>
        simp only [hhelp] at h
        split at h
        · exact .inl ⟨hsb, help, _, _, ‹_›, ‹_›, (Except.ok.inj h).symm⟩
        all_goals cases h
  · obtain ⟨p, hi, rfl⟩ := exists_of_map_eq_ok h
    exact .inr ⟨hsb, p, hi, rfl⟩

theorem fieldEntries_dest {rt : Runtime} {cls : ParserCls} {c : AttrsClass} {a : Attribute}
    {m : ParserMeta} {es : List (String × Kwargs Decoder)} (hp : c.parserPrefix.Plain)
    (ha : '-' ∉ a.name.toList) (hu : a.name.toList.head? ≠ some '_') (hm : c.destOk a m)
    (h : fieldEntries rt cls c.parserPrefix.prepareValue a m = .ok es) :
    ∀ e ∈ es, argDest e.1 e.2 = extractKey c a := by
  obtain ⟨hkey, hdash, hhead⟩ := extractKey_plain hp ha hu
  have hw := withPrefix_prepareValue hp.ne_none
  rcases fieldEntries_ok h with ⟨hsb, help, e, d, he, hd, rfl⟩ | ⟨hsb, p, hi, rfl⟩
  · -- `store_bool`: the prefix is empty and both flags store into the field's name
    have hP : ∀ x, withPrefix c.parserPrefix.prepareValue x = x := fun x => by
      rw [hw, hm.1 hsb, String.empty_append]
    have hn : ("no" ++ a.name).toList.head? = some 'n' := rfl
    rw [hkey, hm.1 hsb, String.empty_append]
    intro x hx
    rcases List.mem_pair.mp hx with rfl | rfl
    · exact storeBoolFlag_dest he hP (by simpa [Attribute.copy] using hu)
        (by simpa [Attribute.copy] using head_ne_of_not_mem ha) fun _ => by simp [Attribute.copy]
    · exact storeBoolFlag_dest hd hP (by rw [copy_name_no, hn]; decide)
        (by rw [copy_name_no, hn]; decide) nofun
  · -- one argument under the prefixed name, or the `dest` that names the key
    intro e he
    rw [List.mem_singleton.mp he, argDest_init hi hu (by rw [hw, ← hkey]; exact head_ne_of_not_mem hdash),
      hw, ← hkey]
    split
    · rfl
    · rcases hm.2 hsb with hd | hd <;> rw [hd]
      · exact (derivedDest_option hhead (head_ne_of_not_mem hdash)).trans
          (replaceChar_of_not_mem hdash)
      · rfl

theorem fieldEntries_ne_nil {rt : Runtime} {cls : ParserCls} {pfx : Option String} {a : Attribute}
    {m : ParserMeta} {es : List (String × Kwargs Decoder)}
    (h : fieldEntries rt cls pfx a m = .ok es) : es ≠ [] := by
  rcases fieldEntries_ok h with ⟨-, -, -, -, -, -, rfl⟩ | ⟨-, -, -, rfl⟩ <;> simp

theorem fieldEntries_positionals {rt : Runtime} {cls : ParserCls} {c : AttrsClass} {a : Attribute}
    {m : ParserMeta} {es : List (String × Kwargs Decoder)} (hp : c.parserPrefix.Plain)
    (ha : '-' ∉ a.name.toList) (hu : a.name.toList.head? ≠ some '_')
    (h : fieldEntries rt cls c.parserPrefix.prepareValue a m = .ok es)
    (hnd : ∀ e ∈ es, isPositional e.1 → e.2.dest = none) :
    (es.filter (isPositional ·.1)).map (fun e => argDest e.1 e.2) =
      if a.default = .nothing then [extractKey c a] else [] := by
  obtain ⟨hkey, hdash, -⟩ := extractKey_plain hp ha hu
  have hw : withPrefix c.parserPrefix.prepareValue a.name = extractKey c a := by
    rw [withPrefix_prepareValue hp.ne_none, ← hkey]
  have hpos : isPositional (extractKey c a) := isPositional_of_head (head_ne_of_not_mem hdash)
  rcases fieldEntries_ok h with ⟨-, help, e, d, he, hd, rfl⟩ | ⟨-, p, hi, rfl⟩
  · have hn : ("no" ++ a.name).toList.head? = some 'n' := rfl
    obtain ⟨hen, hed⟩ := storeBoolFlag_ok he (by simpa [Attribute.copy] using hu)
    obtain ⟨hdn, -⟩ := storeBoolFlag_ok hd (by rw [copy_name_no, hn]; decide)
    have hdef : a.default ≠ .nothing := fun hnone => by
      have := hnd e (List.mem_cons_self _ _)
        (by rw [hen, if_pos hnone]; simpa [Attribute.copy, hw] using hpos)
      rw [hed] at this
      cases this
    simp [hen, hdn, hdef, isPositional_option]
  · obtain ⟨hn, -⟩ := AttrParserArgs.init_ok hi hu
    rw [hw] at hn
    by_cases hdef : a.default = .nothing <;> simp [hn, hdef, hpos, isPositional_option, argDest]

theorem fieldEntries_mandatory {rt : Runtime} {cls : ParserCls} {pfx : Option String}
    {a : Attribute} {m : ParserMeta} {es : List (String × Kwargs Decoder)}
    (h : fieldEntries rt cls pfx a m = .ok es) (hu : a.name.toList.head? ≠ some '_')
    (hpos : isPositional (withPrefix pfx a.name)) (hdef : a.default = .nothing)
    (hnd : ∀ e ∈ es, isPositional e.1 → e.2.dest = none) :
    ∃ p, AttrParserArgs.init cls a m pfx = .ok p ∧ es = [(p.name, p.kwargs rt)] := by
  rcases fieldEntries_ok h with ⟨-, help, e, d, he, -, rfl⟩ | ⟨-, p, hi, rfl⟩
  · obtain ⟨hen, hed⟩ := storeBoolFlag_ok he (by simpa [Attribute.copy] using hu)
    have := hnd e (List.mem_cons_self _ _)
      (by rw [hen, if_pos hdef]; simpa [Attribute.copy] using hpos)
    rw [hed] at this
    cases this
  · exact ⟨p, hi, rfl⟩

theorem AttrParserArgs.kwargs_type {rt : Runtime} {p : AttrParserArgs}
    (h : (p.kwargs rt).kind = .store) : (p.kwargs rt).type = some p.type := by
  have hf : ¬(p.isFlag = true ∨ p.action = "store_const") := by
    simp only [AttrParserArgs.isFlag, decide_eq_true_eq]
    rintro ((hp | hp) | hp) <;>
      simp [Kwargs.kind, AttrParserArgs.kwargs, hp, ActionKind.ofString] at h
  simp only [AttrParserArgs.kwargs, if_neg hf]

theorem fieldEntries_storeBool_ok {rt : Runtime} {cls : ParserCls} {pfx : Option String}
    {a : Attribute} {m : ParserMeta} {es : List (String × Kwargs Decoder)} {v : PyValue}
    (h : fieldEntries rt cls pfx a m = .ok es) (hsb : m.action = some "store_bool")
    (hd : a.default.value? = some v) (hu : a.name.toList.head? ≠ some '_') :
    ∃ e d, es = [e, d] ∧
      e.1 = "--" ++ replaceChar '_' '-' (withPrefix pfx a.name) ∧
      d.1 = "--" ++ replaceChar '_' '-' (withPrefix pfx ("no" ++ a.name)) ∧
      e.2.action = "store_const" ∧ d.2.action = "store_const" ∧
      e.2.dest = some a.name ∧ d.2.dest = some a.name ∧
      e.2.const = some (.bool true) ∧ d.2.const = some (.bool false) ∧
      e.2.default = some (rt.asdict (m.default.getD v)) ∧ e.2.type = none := by
  rcases fieldEntries_ok h with ⟨-, help, e, d, he, hdd, rfl⟩ | ⟨hne, -⟩
  · have hnd : a.default ≠ .nothing := fun h0 => by simp [h0, AttrDefault.value?] at hd
    have ha : (a.copy a.name a.default m).name = a.name := by simp [Attribute.copy]
    obtain ⟨hea, hed, hec, hedf, het⟩ := storeBoolFlag_spec hd he
    obtain ⟨hda, hdd', hdc, -⟩ := storeBoolFlag_spec
      (show (AttrDefault.value (.bool !a.default.truthy)).value? = some (.bool !a.default.truthy) from rfl) hdd
    have hn : ("no" ++ a.name).toList.head? ≠ some '_' := by
      show some 'n' ≠ some '_'
      decide
    refine ⟨e, d, rfl, ?_, ?_, hea, hda, hed, hdd', hec, hdc, hedf, het⟩
    · simpa [ha, hnd] using (storeBoolFlag_ok he (by rwa [ha])).1
    · simpa [copy_name_no] using (storeBoolFlag_ok hdd (by rwa [copy_name_no])).1
  · exact absurd hsb hne

section Walk

variable {rt : Runtime} {cls : ParserCls} {pfx : Option String}

theorem parserEntries_cons_ok {a : Attribute} {as : List Attribute}
    {es : List (String × Kwargs Decoder)} (h : parserEntries rt cls pfx (a :: as) = .ok es) :
    (a.parser = none ∧ parserEntries rt cls pfx as = .ok es) ∨
      ∃ src m es₁ es₂, a.parser = some src ∧ resolveMeta rt src = .ok m ∧
        fieldEntries rt cls pfx a m = .ok es₁ ∧ parserEntries rt cls pfx as = .ok es₂ ∧
        es = es₁ ++ es₂ := by
  unfold parserEntries at h
  cases hp : a.parser with
  | none => simp only [hp] at h; exact .inl ⟨rfl, h⟩
  | some src =>
      simp only [hp] at h
      cases hr : resolveMeta rt src with
      | error => simp only [hr] at h; cases h
      | ok m =>
          simp only [hr] at h
          cases hf : fieldEntries rt cls pfx a m <;> cases hs : parserEntries rt cls pfx as <;>
            simp only [hf, hs] at h <;> try cases h
          exact .inr ⟨src, m, _, _, rfl, hr, hf, rfl, rfl⟩

theorem parserEntries_mem {fs : List Attribute} {es : List (String × Kwargs Decoder)}
    (h : parserEntries rt cls pfx fs = .ok es) :
    ∀ e ∈ es, ∃ a ∈ fs, ∃ src m es', a.parser = some src ∧ resolveMeta rt src = .ok m ∧
      fieldEntries rt cls pfx a m = .ok es' ∧ e ∈ es' := by
  induction fs generalizing es with
  | nil => cases h; intro e he; cases he
  | cons a as ih =>
      rcases parserEntries_cons_ok h with ⟨-, h⟩ | ⟨src, m, es₁, es₂, hp, hr, hf, hs, rfl⟩
      · intro e he
        obtain ⟨b, hb, hrest⟩ := ih h e he
        exact ⟨b, .tail _ hb, hrest⟩
      · intro e he
        rcases List.mem_append.mp he with he | he
        · exact ⟨a, .head _, src, m, es₁, hp, hr, hf, he⟩
        · obtain ⟨b, hb, hrest⟩ := ih hs e he
          exact ⟨b, .tail _ hb, hrest⟩

theorem parserEntries_cover {fs : List Attribute} {es : List (String × Kwargs Decoder)}
    (h : parserEntries rt cls pfx fs = .ok es) :
    ∀ a ∈ fs, ∀ src, a.parser = some src → ∃ m es', resolveMeta rt src = .ok m ∧
      fieldEntries rt cls pfx a m = .ok es' ∧ es' <:+: es := by
  induction fs generalizing es with
  | nil => intro a ha; cases ha
  | cons a as ih =>
      intro b hb src hsrc
      rcases parserEntries_cons_ok h with ⟨hp, h⟩ | ⟨src', m, es₁, es₂, hp, hr, hf, hs, rfl⟩
      · rcases List.mem_cons.mp hb with rfl | hb
        · rw [hp] at hsrc; cases hsrc
        · exact ih h b hb src hsrc
      · rcases List.mem_cons.mp hb with rfl | hb
        · obtain rfl := Option.some.inj (hp.symm.trans hsrc)
          exact ⟨m, es₁, hr, hf, (List.prefix_append _ _).isInfix⟩
        · obtain ⟨m', es', hr', hf', hsub⟩ := ih hs b hb src hsrc
          exact ⟨m', es', hr', hf', hsub.trans (List.suffix_append _ _).isInfix⟩

theorem parserEntries_positionals {c : AttrsClass} (hp : c.parserPrefix.Plain) :
    ∀ {fs : List Attribute} {es : List (String × Kwargs Decoder)},
      (∀ a ∈ fs, a.parser.isSome → '-' ∉ a.name.toList ∧ a.name.toList.head? ≠ some '_') →
      parserEntries rt cls c.parserPrefix.prepareValue fs = .ok es →
      (∀ e ∈ es, isPositional e.1 → e.2.dest = none) →
      (es.filter (isPositional ·.1)).map (fun e => argDest e.1 e.2) =
        (fs.filter fun a => a.parser.isSome ∧ a.default = .nothing).map (extractKey c) := by
  intro fs
  induction fs with
  | nil => intro es _ h _; cases h; rfl
  | cons a as ih =>
      intro es hok h hnd
      have hok' := fun b (hb : b ∈ as) => hok b (.tail _ hb)
      rcases parserEntries_cons_ok h with ⟨hp', h⟩ | ⟨src, m, es₁, es₂, hsrc, -, hf, hs, rfl⟩
      · simpa [List.filter_cons, hp'] using ih hok' h hnd
      · have hsome : a.parser.isSome := by simp [hsrc]
        obtain ⟨ha, hu⟩ := hok a (.head _) hsome
        have h₁ := fieldEntries_positionals hp ha hu hf fun e he => hnd e (List.mem_append_left _ he)
        have h₂ := ih hok' hs fun e he => hnd e (List.mem_append_right _ he)
        rw [List.filter_append, List.map_append, h₁, h₂]
        by_cases hdef : a.default = .nothing <;> simp [List.filter_cons, hsome, hdef]

end Walk

theorem addArguments_ok {parser parser' : List (Action Decoder)} :
    ∀ {es : List (String × Kwargs Decoder)},
      addArguments parser (es.map fun e => (.str e.1, e.2)) = .ok parser' →
      parser' = parser ++ es.map (fun e => Action.ofCall e.1 e.2) ∧
        ∀ e ∈ es, isPositional e.1 → e.2.dest = none := by
  intro es h
  induction es generalizing parser with
  | nil => cases h; exact ⟨by simp, fun _ he => absurd he (List.not_mem_nil _)⟩
  | cons e es ih =>
      simp only [List.map_cons, addArguments] at h
      split at h
      · rename_i parser₁ h₁
        obtain ⟨rfl, hpos⟩ := addArgument_ok h₁
        obtain ⟨rfl, hrest⟩ := ih h
        refine ⟨by simp, fun e' he' => ?_⟩
        rcases List.mem_cons.mp he' with rfl | he'
        · exact hpos
        · exact hrest e' he'
      · cases h

/-- `prepare_args` builds pairwise distinct argument names, so its dict keeps every one. -/
def AttrsClass.namesDistinct (rt : Runtime) (cls : ParserCls) (c : AttrsClass) : Bool :=
  match parserEntries rt cls c.parserPrefix.prepareValue c.fields with
  | .ok es => decide (es.map (·.1)).Nodup
  | .error _ => true

theorem fillParser_ok {rt : Runtime} {cls : ParserCls} {c : AttrsClass}
    {parser : List (Action Decoder)} (hn : c.namesDistinct rt cls)
    (h : fillParser rt cls c = .ok parser) :
    ∃ es, parserEntries rt cls c.parserPrefix.prepareValue c.fields = .ok es ∧
      parser = es.map (fun e => Action.ofCall e.1 e.2) ∧
      ∀ e ∈ es, isPositional e.1 → e.2.dest = none := by
  unfold fillParser prepareArgs at h
  cases he : parserEntries rt cls c.parserPrefix.prepareValue c.fields with
  | error => simp only [he, Except.map] at h; cases h
  | ok es =>
      simp only [he, Except.map] at h
      have hnd : (es.map (·.1)).Nodup := by simpa [AttrsClass.namesDistinct, he] using hn
      have hkeys : ((es.map fun e => (PyValue.str e.1, e.2)).map (·.1)).Nodup := by
        simpa [List.map_map, Function.comp_def] using hnd.map fun _ _ e => PyValue.str.inj e
      rw [Dict.ofList_of_nodup _ hkeys] at h
      cases ha : addArguments [] (es.map fun e => (PyValue.str e.1, e.2)) with
      | error => rw [ha] at h; cases h
      | ok p =>
          rw [ha] at h
          cases h
          obtain ⟨rfl, hpos⟩ := addArguments_ok ha
          exact ⟨es, rfl, by simp, hpos⟩

theorem fillParser_dests {rt : Runtime} {cls : ParserCls} {c : AttrsClass}
    {parser : List (Action Decoder)} (hn : c.namesDistinct rt cls)
    (h : fillParser rt cls c = .ok parser) :
    ∃ es, parserEntries rt cls c.parserPrefix.prepareValue c.fields = .ok es ∧
      parser.map (·.dest) = es.map fun e => argDest e.1 e.2 := by
  obtain ⟨es, hes, rfl, -⟩ := fillParser_ok hn h
  exact ⟨es, hes, by simp [Function.comp_def]⟩

/-! ## What `extract_args` and `from_args` read -/

section Extract

variable {c : AttrsClass}

theorem extractStep_of_get {pop : Bool} {pos kw ns : Dict PyValue} {a : Attribute}
    {src : ParserMetaSource} {v : PyValue} (hp : a.parser = some src)
    (hv : ns.get (.str (extractKey c a)) = some v) :
    extractStep c true true pop (pos, kw, ns) a =
      if a.default = .nothing then
        (pos.set (.str a.name) v, kw, if pop then ns.erase (.str (extractKey c a)) else ns)
      else (pos, kw.set (.str a.name) v, if pop then ns.erase (.str (extractKey c a)) else ns) := by
  by_cases hd : a.default = .nothing <;> simp [extractStep, hp, hv, hd]

theorem extractStep_of_none {p o pop : Bool} {acc : Dict PyValue × Dict PyValue × Dict PyValue}
    {a : Attribute} (hp : a.parser = none) : extractStep c p o pop acc a = acc := by
  simp [extractStep, hp]

theorem extractStep_foldl (pop : Bool) (vals : Attribute → PyValue) :
    ∀ (fs : List Attribute) (pos kw ns : Dict PyValue), (fs.map (·.name)).Nodup →
      ((fs.filter (·.parser.isSome)).map (extractKey c)).Nodup →
      (∀ a ∈ fs, PyValue.str a.name ∉ pos.map (·.1) ∧ PyValue.str a.name ∉ kw.map (·.1)) →
      (∀ a ∈ fs, a.parser.isSome → ns.get (.str (extractKey c a)) = some (vals a)) →
      (fs.foldl (extractStep c true true pop) (pos, kw, ns)).1 =
          pos ++ (fs.filter fun a => a.parser.isSome ∧ a.default = .nothing).map
            (fun a => (.str a.name, vals a)) ∧
        (fs.foldl (extractStep c true true pop) (pos, kw, ns)).2.1 =
          kw ++ (fs.filter fun a => a.parser.isSome ∧ a.default ≠ .nothing).map
            (fun a => (.str a.name, vals a)) := by
  intro fs
  induction fs with
  | nil => intro pos kw ns _ _ _ _; simp
  | cons a as ih =>
      intro pos kw ns hn hk hfresh hv
      rw [List.map_cons, List.nodup_cons] at hn
      have hne : ∀ b ∈ as, PyValue.str b.name ≠ .str a.name := fun b hb e =>
        hn.1 (PyValue.str.inj e ▸ List.mem_map_of_mem _ hb)
      have hv' := fun b (hb : b ∈ as) => hv b (.tail _ hb)
      rw [List.foldl_cons]
      cases hp : a.parser with
      | none =>
          rw [extractStep_of_none hp]
          simpa [List.filter_cons, hp] using
            ih pos kw ns hn.2 (by simpa [List.filter_cons, hp] using hk)
              (fun b hb => hfresh b (.tail _ hb)) hv'
      | some src =>
          have hsome : a.parser.isSome := by simp [hp]
          simp only [List.filter_cons, hsome, if_true, List.map_cons, List.nodup_cons] at hk
          have hrest : ∀ b ∈ as, b.parser.isSome →
              (if pop then ns.erase (.str (extractKey c a)) else ns).get (.str (extractKey c b)) =
                some (vals b) := by
            intro b hb hbp
            have hkb : PyValue.str (extractKey c a) ≠ .str (extractKey c b) := fun e =>
              hk.1 (PyValue.str.inj e ▸ List.mem_map_of_mem _ (List.mem_filter.mpr ⟨hb, hbp⟩))
            split
            · rw [Dict.get_erase_ne _ hkb, hv' b hb hbp]
            · exact hv' b hb hbp
          rw [extractStep_of_get hp (hv a (.head _) hsome)]
          by_cases hd : a.default = .nothing
          · rw [if_pos hd, Dict.set_of_not_mem _ _ _ (hfresh a (.head _)).1]
            obtain ⟨h₁, h₂⟩ := ih (pos ++ [(.str a.name, vals a)]) kw _ hn.2 hk.2
              (fun b hb => ⟨Dict.not_mem_keys_append _ (hfresh b (.tail _ hb)).1 (hne b hb),
                (hfresh b (.tail _ hb)).2⟩) hrest
            simp [List.filter_cons, hsome, hd, h₁, h₂]
          · rw [if_neg hd, Dict.set_of_not_mem _ _ _ (hfresh a (.head _)).2]
            obtain ⟨h₁, h₂⟩ := ih pos (kw ++ [(.str a.name, vals a)]) _ hn.2 hk.2
              (fun b hb => ⟨(hfresh b (.tail _ hb)).1,
                Dict.not_mem_keys_append _ (hfresh b (.tail _ hb)).2 (hne b hb)⟩) hrest
            simp [List.filter_cons, hsome, hd, h₁, h₂]

theorem fromArgs_namespace (ns : Dict PyValue) (pop : Bool) :
    (fromArgs c (.namespace ns) pop).map Prod.fst =
      (c.call (extractArgs c ns true true pop).1 (extractArgs c ns true true pop).2.1).mapError
        .call := by
  simp only [fromArgs]
  cases c.call _ _ <;> rfl

theorem extractStep_rest (acc : Dict PyValue × Dict PyValue × Dict PyValue) (a : Attribute) :
    (extractStep c true true true acc a).2.2 =
      if a.parser.isSome then acc.2.2.erase (.str (extractKey c a)) else acc.2.2 := by
  cases hp : a.parser with
  | none => simp [extractStep, hp]
  | some src =>
      cases hv : acc.2.2.get (.str (extractKey c a)) with
      | none => simp [extractStep, hp, hv, Dict.erase_of_get_none hv]
      | some v => by_cases hd : a.default = .nothing <;> simp [extractStep, hp, hv, hd]

theorem extractStep_foldl_rest (fs : List Attribute) :
    ∀ acc : Dict PyValue × Dict PyValue × Dict PyValue, (acc.2.2.map (·.1)).Nodup → ∀ k,
      (fs.foldl (extractStep c true true true) acc).2.2.get k =
        if k ∈ (fs.filter (·.parser.isSome)).map (fun a => PyValue.str (extractKey c a)) then none
        else acc.2.2.get k := by
  induction fs with
  | nil => intro acc _ k; simp
  | cons a as ih =>
      intro acc hnd k
      have hnd' : ((extractStep c true true true acc a).2.2.map (·.1)).Nodup := by
        rw [extractStep_rest]
        split
        · exact (Dict.keys_erase_sublist _ _).nodup hnd
        · exact hnd
      rw [List.foldl_cons, ih _ hnd' k, extractStep_rest]
      by_cases hp : a.parser.isSome
      · rw [if_pos hp]
        by_cases hk : PyValue.str (extractKey c a) = k
        · subst hk
          simp [hp, List.filter_cons, Dict.get_erase_self hnd]
        · rw [Dict.get_erase_ne _ hk, List.filter_cons_of_pos (p := fun x : Attribute => x.parser.isSome) hp, List.map_cons]
          simp only [List.mem_cons, Ne.symm hk, false_or]
      · rw [if_neg hp, List.filter_cons_of_neg (p := fun x : Attribute => x.parser.isSome) hp]

/-! ### Two passes

`extract_positional_args` takes the mandatory fields out of the parse, and
`extract_optional_args` the fields with a default out of what is left. Each pass touches only
the keys of its own fields, and distinct fields have distinct keys, so the two passes split the
parse as `extract_args` does in one. -/

theorem extractStep_get {p o pop : Bool} (acc : Dict PyValue × Dict PyValue × Dict PyValue)
    {a : Attribute} {k : PyValue} (hk : a.parser.isSome → PyValue.str (extractKey c a) ≠ k) :
    (extractStep c p o pop acc a).2.2.get k = acc.2.2.get k := by
  cases hp : a.parser with
  | none => rw [extractStep_of_none hp]
  | some src =>
      have hk' := hk (by simp [hp])
      cases hv : acc.2.2.get (.str (extractKey c a)) with
      | none => simp only [extractStep, hp, hv]
      | some v =>
          simp only [extractStep, hp, hv]
          split_ifs <;> simp [Dict.get_erase_ne _ hk']

theorem extractStep_erase {p o : Bool} (x y r : Dict PyValue) {a : Attribute} {k : PyValue}
    (hk : a.parser.isSome → PyValue.str (extractKey c a) ≠ k) :
    extractStep c p o true (x, y, r.erase k) a =
      ((extractStep c p o true (x, y, r) a).1, (extractStep c p o true (x, y, r) a).2.1,
        (extractStep c p o true (x, y, r) a).2.2.erase k) := by
  cases hp : a.parser with
  | none => simp only [extractStep_of_none hp]
  | some src =>
      have hk' := hk (by simp [hp])
      simp only [extractStep, hp, Dict.get_erase_ne r (Ne.symm hk')]
      cases r.get (.str (extractKey c a)) with
      | none => rfl
      | some v => split_ifs <;> simp [Dict.erase_comm]

section Fold

variable {p o : Bool} {k : PyValue} {fs : List Attribute}
  (hk : ∀ b ∈ fs, b.parser.isSome → PyValue.str (extractKey c b) ≠ k)
include hk

theorem foldl_extractStep_get {pop : Bool} :
    ∀ acc, (fs.foldl (extractStep c p o pop) acc).2.2.get k = acc.2.2.get k := by
  induction fs with
  | nil => intro acc; rfl
  | cons a fs ih =>
      intro acc
      rw [List.foldl_cons, ih (fun b hb => hk b (.tail _ hb)), extractStep_get acc (hk a (.head _))]

theorem foldl_extractStep_erase :
    ∀ x y r : Dict PyValue, fs.foldl (extractStep c p o true) (x, y, r.erase k) =
      ((fs.foldl (extractStep c p o true) (x, y, r)).1,
        (fs.foldl (extractStep c p o true) (x, y, r)).2.1,
        (fs.foldl (extractStep c p o true) (x, y, r)).2.2.erase k) := by
  induction fs with
  | nil => intro x y r; rfl
  | cons a fs ih =>
      intro x y r
      rw [List.foldl_cons, List.foldl_cons, extractStep_erase x y r (hk a (.head _))]
      exact ih (fun b hb => hk b (.tail _ hb)) _ _ _

end Fold

theorem extractStep_skip {p o pop : Bool} (acc : Dict PyValue × Dict PyValue × Dict PyValue)
    {a : Attribute} (h : ¬ (p ∧ a.default = .nothing) ∧ ¬ (o ∧ a.default ≠ .nothing)) :
    extractStep c p o pop acc a = acc := by
  simp only [extractStep]
  split <;> simp only [h, if_false]

theorem foldl_extractStep_passes : ∀ (fs : List Attribute) (pos kw rest kw' pos' : Dict PyValue),
    ((fs.filter (·.parser.isSome)).map (extractKey c)).Nodup →
    fs.foldl (extractStep c true true true) (pos, kw, rest) =
      ((fs.foldl (extractStep c true false true) (pos, kw', rest)).1,
        (fs.foldl (extractStep c false true true)
          (pos', kw, (fs.foldl (extractStep c true false true) (pos, kw', rest)).2.2)).2.1,
        (fs.foldl (extractStep c false true true)
          (pos', kw, (fs.foldl (extractStep c true false true) (pos, kw', rest)).2.2)).2.2) := by
  intro fs
  induction fs with
  | nil => intro pos kw rest kw' pos' _; rfl
  | cons a fs ih =>
      intro pos kw rest kw' pos' hnd
      simp only [List.foldl_cons]
      cases hp : a.parser with
      | none =>
          simp only [extractStep_of_none hp]
          exact ih _ _ _ _ _ (by simpa [List.filter_cons, hp] using hnd)
      | some src =>
          simp only [List.filter_cons, hp, Option.isSome_some, if_true, List.map_cons,
            List.nodup_cons] at hnd
          have hne : ∀ b ∈ fs, b.parser.isSome → PyValue.str (extractKey c b) ≠ .str (extractKey c a) :=
            fun b hb hbp e => hnd.1 (PyValue.str.inj e ▸ List.mem_map_of_mem _ (List.mem_filter.mpr ⟨hb, hbp⟩))
          have hget : ∀ acc, (fs.foldl (extractStep c true false true) acc).2.2.get
              (.str (extractKey c a)) = acc.2.2.get (.str (extractKey c a)) := foldl_extractStep_get hne
          cases hv : rest.get (.str (extractKey c a)) with
          | none =>
              have hv' := (hget (pos, kw', rest)).trans hv
              simp only [extractStep, hp, hv, hv']
              exact ih _ _ _ _ _ hnd.2
          | some v =>
              by_cases hd : a.default = .nothing
              · rw [extractStep_skip (p := false) (o := true) _ (by simp [hd])]
                simp only [extractStep, hp, hv, hd, if_true, and_self]
                exact ih _ _ _ _ _ hnd.2
              · have hv' := (hget (pos, kw', rest)).trans hv
                rw [extractStep_skip (p := true) (o := false) _ (by simp [hd])]
                simp only [extractStep, hp, hv, hv', hd, if_false, if_true, and_false, false_and,
                  ne_eq, not_false_eq_true, and_self]
                rw [ih _ _ _ kw' pos' hnd.2, foldl_extractStep_erase hne]

/-- Extracting the mandatory fields first and the fields with a default from what is left splits
the parse as `extract_args` does in one pass, and leaves the same rest. -/
theorem extractArgs_two_passes (c : AttrsClass) (kwargs : Dict PyValue) :
    extractArgs c kwargs true true true =
      ((extractPositionalArgs c kwargs).1,
        (extractOptionalArgs c (extractPositionalArgs c kwargs).2).1,
        (extractOptionalArgs c (extractPositionalArgs c kwargs).2).2) := by
  simp only [extractArgs, extractPositionalArgs, extractOptionalArgs]
  rw [foldl_extractStep_passes c.fields [] [] kwargs [] [] c.extractKeys_nodup]

end Extract

/-! ## Round-trip schemas -/

def parsedValue (c : AttrsClass) (ns : Dict PyValue) (a : Attribute) : PyValue :=
  (ns.get (.str (extractKey c a))).getD .none

def AttrsClass.parserKwargs (c : AttrsClass) (ns : Dict PyValue) : Dict PyValue :=
  (c.fields.filter (·.parser.isSome)).map fun a => (.str a.initName, parsedValue c ns a)

/-- A parser field that `from_args` reads back: an `__init__` field with no leading underscore
whose metadata stores where `extract_args` reads. -/
def AttrsClass.parserFieldOk (rt : Runtime) (c : AttrsClass) (a : Attribute) : Bool :=
  match a.parser with
  | none => true
  | some src => a.init && a.name.toList.head? != some '_' &&
    match resolveMeta rt src with
    | .ok m => decide (c.destOk a m)
    | .error _ => true

theorem AttrsClass.parserFieldOk_spec {rt : Runtime} {c : AttrsClass} {a : Attribute}
    {src : ParserMetaSource} (h : c.parserFieldOk rt a) (hp : a.parser = some src) :
    a.init ∧ a.name.toList.head? ≠ some '_' ∧ ∀ m, resolveMeta rt src = .ok m → c.destOk a m := by
  simp only [AttrsClass.parserFieldOk, hp, Bool.and_eq_true, bne_iff_ne, ne_eq] at h
  refine ⟨h.1.1, h.1.2, fun m hr => ?_⟩
  simpa [hr] using h.2

def AttrsClass.argsSupported (rt : Runtime) (cls : ParserCls) (c : AttrsClass) : Bool :=
  match parserEntries rt cls c.parserPrefix.prepareValue c.fields with
  | .ok es => es.all fun e => (Action.ofCall e.1 e.2).supported
  | .error _ => true

/-- The schemas whose parse `from_args` reads back: a plain prefix; parser fields that
`from_args` reads back; every mandatory `__init__` field a parser field; argument names that
`prepare_args` keeps apart; and arguments the argparse model parses. -/
structure AttrsClass.RoundTrip (rt : Runtime) (cls : ParserCls) (c : AttrsClass) : Prop where
  plain : c.parserPrefix.Plain
  parser_fields : ∀ a ∈ c.fields, c.parserFieldOk rt a
  mandatory_parsed : ∀ a ∈ c.fields, a.init → a.default = .nothing → a.parser.isSome
  names_distinct : c.namesDistinct rt cls
  supported : c.argsSupported rt cls

/-! ## The values a command line supplies -/

def AttrParserArgs.decodeText (rt : Runtime) (p : AttrParserArgs) : PyValue → PyValue
  | .str s => Decoder.run rt p.type s
  | v => v

/-- What the resolved command line `line` gives the option of an `AttrParserArgs`: a
`store_true` flag whether it occurs and a `store_false` flag whether it does not; a `store_const`
option its `const` when it occurs; a `store` option the token of its last occurrence decoded by
`type`, or its `const` for an occurrence without one (`nargs='?'`); with no occurrence, the
default. Default and `const` are as `attr.asdict` gives them, a `str` decoded for `store`. -/
def AttrParserArgs.argValue (rt : Runtime) (p : AttrParserArgs) (line : List Arg) : PyValue :=
  match (ActionKind.ofString p.action).getD .store with
  | .storeTrue => .bool (decide (.opt p.name none ∈ line))
  | .storeFalse => .bool !(decide (.opt p.name none ∈ line))
  | .storeConst => if .opt p.name none ∈ line then rt.asdict p.const else rt.asdict p.default
  | _ =>
    match lastOccurrence p.name line with
    | some (some t) => Decoder.run rt p.type t
    | some none => p.decodeText rt (rt.asdict p.const)
    | none => p.decodeText rt (rt.asdict p.default)

/-- The value the resolved command line `line` gives a parser field: a mandatory field the token
at its place among the mandatory `__init__` fields, decoded by the `type` of its
`AttrParserArgs`; a `store_bool` field `True` or `False` as the last of its flags `--<name>` and
`--no<name>` given says, else the metadata's default over its own; any other field what its
option gives. -/
def AttrsClass.argValue (rt : Runtime) (cls : ParserCls) (c : AttrsClass) (line : List Arg)
    (a : Attribute) : PyValue :=
  match a.parser with
  | none => .none
  | some src =>
    match resolveMeta rt src with
    | .error _ => .none
    | .ok m =>
      if m.action = some "store_bool" ∧ a.default ≠ .nothing then
        ((lastFlag ("--" ++ replaceChar '_' '-' a.name) ("--" ++ replaceChar '_' '-' ("no" ++ a.name))
          line).map .bool).getD (rt.asdict (m.default.getD (a.default.value?.getD .none)))
      else
        match AttrParserArgs.init cls a m c.parserPrefix.prepareValue with
        | .error _ => .none
        | .ok p =>
          if a.default = .nothing then
            ((line.filterMap Arg.token?)[((c.fields.filter (·.init)).filter
              (·.default = .nothing)).indexOf a]?).elim .none (Decoder.run rt p.type)
          else p.argValue rt line

/-- The keywords of the direct call the round trip is compared with: every parser field by its
`__init__` parameter, with the value the command line gives it. -/
def AttrsClass.cliKwargs (rt : Runtime) (cls : ParserCls) (c : AttrsClass) (line : List Arg) :
    Dict PyValue :=
  (c.fields.filter (·.parser.isSome)).map fun a => (.str a.initName, c.argValue rt cls line a)

theorem AttrParserArgs.ofCall_const {rt : Runtime} {p : AttrParserArgs}
    (ht : (ActionKind.ofString p.action).getD .store ≠ .storeTrue)
    (hf : (ActionKind.ofString p.action).getD .store ≠ .storeFalse) :
    (Action.ofCall p.name (p.kwargs rt)).const = rt.asdict p.const := by
  have hk : (Action.ofCall p.name (p.kwargs rt)).const = (p.kwargs rt).const.getD .none := by
    simp only [Action.ofCall, Kwargs.constValue, Kwargs.kind]
    split <;> simp_all [AttrParserArgs.kwargs]
  rw [hk]
  by_cases hc : p.const = .none
  · simp [AttrParserArgs.kwargs, hc, rt.asdict_plain .none nofun]
  · simp [AttrParserArgs.kwargs, hc]

theorem AttrParserArgs.argValue_eq {rt : Runtime} {p : AttrParserArgs} {line : List Arg}
    (hs : (Action.ofCall p.name (p.kwargs rt)).supported)
    (hok : ∀ value, .opt p.name value ∈ line →
      ∃ v, (Action.ofCall p.name (p.kwargs rt)).optionValue (Decoder.run rt) p.name value = .ok v) :
    ((Action.ofCall p.name (p.kwargs rt)).lastValue (Decoder.run rt) p.name line).getD
      ((Action.ofCall p.name (p.kwargs rt)).parsedDefault (Decoder.run rt)) = p.argValue rt line := by
  have hkind : (Action.ofCall p.name (p.kwargs rt)).kind = (ActionKind.ofString p.action).getD .store :=
    rfl
  unfold AttrParserArgs.argValue
  cases hk : (ActionKind.ofString p.action).getD .store with
  | store =>
      have hf : p.isFlag = false := by
        simp only [AttrParserArgs.isFlag, decide_eq_false_iff_not, not_or]
        constructor <;> intro h <;> rw [h] at hk <;> exact absurd hk (by decide)
      have hconv : (Action.ofCall p.name (p.kwargs rt)).convert (Decoder.run rt) =
          Decoder.run rt p.type := by
        funext t
        simp [Action.convert, Action.ofCall, AttrParserArgs.kwargs_type (hkind.trans hk)]
      have hconst : (Action.ofCall p.name (p.kwargs rt)).const = rt.asdict p.const :=
        AttrParserArgs.ofCall_const (by rw [hk]; decide) (by rw [hk]; decide)
      have hbare : (Action.ofCall p.name (p.kwargs rt)).bareValue (Decoder.run rt) =
          p.decodeText rt (rt.asdict p.const) := by
        cases h : rt.asdict p.const <;>
          simp [Action.bareValue, AttrParserArgs.decodeText, hconst, hconv, h]
      have hdefault : (Action.ofCall p.name (p.kwargs rt)).default = rt.asdict p.default := by
        simp [Action.ofCall, AttrParserArgs.kwargs, hf]
      have hdef : (Action.ofCall p.name (p.kwargs rt)).parsedDefault (Decoder.run rt) =
          p.decodeText rt (rt.asdict p.default) := by
        cases h : rt.asdict p.default <;>
          simp [Action.parsedDefault, AttrParserArgs.decodeText, hdefault, hconv, h]
      rw [Action.lastValue_store _ (hkind.trans hk) hok]
      rcases lastOccurrence p.name line with _ | _ | t <;> simp [hbare, hdef, hconv]
  | storeConst =>
      have ha : p.action = "store_const" := ActionKind.ofString_getD hk nofun
      rw [Action.lastValue_const _ (by rw [hkind, hk]; exact nofun) hok,
        AttrParserArgs.ofCall_const (by rw [hk]; decide) (by rw [hk]; decide),
        Action.parsedDefault_of_type _ (by simp [Action.ofCall, AttrParserArgs.kwargs, ha])]
      split <;> simp [Action.ofCall, AttrParserArgs.kwargs, AttrParserArgs.isFlag, ha]
  | storeTrue | storeFalse =>
      have ha := ActionKind.ofString_getD hk nofun
      rw [Action.lastValue_const _ (by rw [hkind, hk]; exact nofun) hok]
      by_cases hocc : Arg.opt p.name none ∈ line <;>
        simp [hocc, ha, Action.ofCall, Action.parsedDefault, Kwargs.constValue, Kwargs.kind,
          AttrParserArgs.kwargs, AttrParserArgs.isFlag, ActionKind.ofString, ActionKind.name,
          ActionKind.defaultDefault]
  | unmodelled n => simp [Action.supported, hkind, hk] at hs

theorem ofCall_flag {e : String × Kwargs Decoder} {s k : String} {v : Bool}
    (hn : e.1 = "--" ++ s) (ha : e.2.action = "store_const") (hd : e.2.dest = some k)
    (hc : e.2.const = some (.bool v)) :
    (Action.ofCall e.1 e.2).optionStrings = [e.1] ∧ (Action.ofCall e.1 e.2).dest = k ∧
      (Action.ofCall e.1 e.2).kind = .storeConst ∧ (Action.ofCall e.1 e.2).const = .bool v := by
  have hk : e.2.kind = .storeConst := by simp [Kwargs.kind, ha, ActionKind.ofString]
  simp [Action.ofCall, hn, isPositional_option, argDest, hd, hk, Kwargs.constValue, hc]

theorem find?_pair {α : Type} {l : List (String × α)} {x y : String × α} {p : String × α → Bool}
    (hnd : (l.map (·.1)).Nodup) (hin : [x, y] <:+: l) (hx : p x)
    (honly : ∀ z ∈ l, p z → z = x ∨ z = y) : l.find? p = some x := by
  obtain ⟨l₁, l₂, rfl⟩ := hin
  rw [List.map_append, List.map_append, List.append_assoc, List.nodup_append] at hnd
  have hnone : l₁.find? p = none := List.find?_eq_none.mpr fun z hz hpz => by
    rcases honly z (by simp [hz]) hpz with rfl | rfl <;>
      exact hnd.2.2 (List.mem_map_of_mem _ hz) (by simp)
  simp [List.find?_append, hnone, hx]

theorem switch_of_entries {es : List (String × Kwargs Decoder)} {e d : String × Kwargs Decoder}
    {k : String} (hnames : (es.map (·.1)).Nodup) (hin : [e, d] <:+: es)
    (honly : ∀ x ∈ es, argDest x.1 x.2 = k → x = e ∨ x = d)
    (hE : (Action.ofCall e.1 e.2).optionStrings = [e.1] ∧ (Action.ofCall e.1 e.2).dest = k ∧
      (Action.ofCall e.1 e.2).kind = .storeConst ∧ (Action.ofCall e.1 e.2).const = .bool true)
    (hD : (Action.ofCall d.1 d.2).optionStrings = [d.1] ∧ (Action.ofCall d.1 d.2).dest = k ∧
      (Action.ofCall d.1 d.2).kind = .storeConst ∧ (Action.ofCall d.1 d.2).const = .bool false) :
    Switch (es.map fun x => Action.ofCall x.1 x.2) k e.1 d.1 (Action.ofCall e.1 e.2)
      (Action.ofCall d.1 d.2) := by
  obtain ⟨hEo, hEd, hEk, hEc⟩ := hE
  obtain ⟨hDo, hDd, hDk, hDc⟩ := hD
  have he : e ∈ es := hin.subset (List.mem_cons_self _ _)
  have hd : d ∈ es := hin.subset (by simp)
  -- a flag's option string is its entry's name, which no other entry has
  have hname : ∀ x ∈ es, ∀ y ∈ es, (Action.ofCall x.1 x.2).optionStrings.contains y.1 → x = y := by
    intro x hx y hy hxy
    by_cases hp : isPositional x.1
    · simp [hp] at hxy
    · simp only [Action.ofCall_optionStrings, hp] at hxy
      exact List.inj_on_of_nodup_map hnames hx hy (by simpa [eq_comm] using hxy)
  refine ⟨List.mem_map_of_mem _ he, List.mem_map_of_mem _ hd,
    by simpa using hnames.sublist (hin.sublist.map (·.1)), hEo, hDo, hEk, hDk, hEc, hDc, ?_, ?_,
    ?_, ?_⟩
  · simp only [List.mem_map]
    rintro _ ⟨x, hx, rfl⟩
    refine ⟨fun hxd => ?_, ?_⟩
    · rcases honly x hx (by simpa using hxd) with rfl | rfl <;> simp
    · rintro (h | h) <;> rw [h] <;> assumption
  · rw [List.find?_map, find?_pair hnames hin (by simpa using hEd) fun x hx hxd =>
      honly x hx (by simpa using hxd)]
    rfl
  · simp only [List.mem_map]
    rintro _ ⟨x, hx, rfl⟩ hxo
    rw [hname x hx e he hxo]
  · simp only [List.mem_map]
    rintro _ ⟨x, hx, rfl⟩ hxo
    rw [hname x hx d hd hxo]

section RoundTrip

variable {rt : Runtime} {cls : ParserCls} {c : AttrsClass}

theorem AttrsClass.RoundTrip.entry_dest (hc : c.RoundTrip rt cls) {es : List (String × Kwargs Decoder)}
    (hes : parserEntries rt cls c.parserPrefix.prepareValue c.fields = .ok es) :
    ∀ e ∈ es, ∃ a ∈ c.fields, a.parser.isSome ∧ argDest e.1 e.2 = extractKey c a := by
  intro e he
  obtain ⟨a, ha, src, m, es', hp, hr, hf, he'⟩ := parserEntries_mem hes e he
  obtain ⟨-, hu, hm⟩ := AttrsClass.parserFieldOk_spec (hc.parser_fields a ha) hp
  exact ⟨a, ha, by simp [hp], fieldEntries_dest hc.plain (c.names_ident a ha) hu (hm m hr) hf e he'⟩

theorem AttrsClass.RoundTrip.parser_dests (hc : c.RoundTrip rt cls) {parser : List (Action Decoder)}
    (h : fillParser rt cls c = .ok parser) :
    (∀ act ∈ parser, ∃ a ∈ c.fields, a.parser.isSome ∧ act.dest = extractKey c a) ∧
      ∀ a ∈ c.fields, a.parser.isSome → ∃ act ∈ parser, act.dest = extractKey c a := by
  obtain ⟨es, hes, hd⟩ := fillParser_dests hc.names_distinct h
  constructor
  · intro act hact
    have hmem : act.dest ∈ es.map fun e => argDest e.1 e.2 := hd ▸ List.mem_map_of_mem _ hact
    obtain ⟨e, he, hde⟩ := List.mem_map.mp hmem
    obtain ⟨a, ha, hp, hk⟩ := hc.entry_dest hes e he
    exact ⟨a, ha, hp, hde ▸ hk⟩
  · intro a ha hp
    obtain ⟨src, hsrc⟩ := Option.isSome_iff_exists.mp hp
    obtain ⟨m, es', hr, hf, hsub⟩ := parserEntries_cover hes a ha src hsrc
    obtain ⟨-, hu, hm⟩ := AttrsClass.parserFieldOk_spec (hc.parser_fields a ha) hsrc
    obtain ⟨e, he⟩ := List.exists_mem_of_ne_nil _ (fieldEntries_ne_nil hf)
    have hmem : argDest e.1 e.2 ∈ parser.map (·.dest) := hd ▸ List.mem_map_of_mem _ (hsub.subset he)
    obtain ⟨act, hact, hde⟩ := List.mem_map.mp hmem
    exact ⟨act, hact, hde.trans (fieldEntries_dest hc.plain (c.names_ident a ha) hu (hm m hr) hf e he)⟩

theorem AttrsClass.RoundTrip.parser_init (hc : c.RoundTrip rt cls) {a : Attribute}
    (ha : a ∈ c.fields) (hp : a.parser.isSome) :
    a.init ∧ a.name.toList.head? ≠ some '_' ∧ a.initName = a.name := by
  obtain ⟨src, hsrc⟩ := Option.isSome_iff_exists.mp hp
  obtain ⟨hi, hu, -⟩ := AttrsClass.parserFieldOk_spec (hc.parser_fields a ha) hsrc
  exact ⟨hi, hu, lstripChar_of_head hu⟩

theorem AttrsClass.RoundTrip.mandatory_eq (hc : c.RoundTrip rt cls) :
    c.fields.filter (fun a => a.parser.isSome ∧ a.default = .nothing) =
      (c.fields.filter (·.init)).filter (·.default = .nothing) := by
  rw [List.filter_filter]
  refine List.filter_congr fun a ha => ?_
  by_cases hp : a.parser.isSome
  · simp [hp, (hc.parser_init ha hp).1]
  · by_cases hi : a.init
    · simp [hp, hi, mt (hc.mandatory_parsed a ha hi) hp]
    · simp [hp, hi]

theorem AttrsClass.RoundTrip.positional_dests (hc : c.RoundTrip rt cls)
    {parser : List (Action Decoder)} (h : fillParser rt cls c = .ok parser) :
    (parser.filter (·.optionStrings = [])).map (·.dest) =
      ((c.fields.filter (·.init)).filter (·.default = .nothing)).map (extractKey c) := by
  obtain ⟨es, hes, rfl, hnd⟩ := fillParser_ok hc.names_distinct h
  have hfilter : (es.map fun e => Action.ofCall e.1 e.2).filter (·.optionStrings = []) =
      (es.filter (isPositional ·.1)).map fun e => Action.ofCall e.1 e.2 := by
    rw [List.filter_map]
    congr 1
    exact List.filter_congr fun e _ => by cases hp : isPositional e.1 <;> simp [hp]
  rw [hfilter, List.map_map, ← hc.mandatory_eq, ← parserEntries_positionals hc.plain
    (fun a ha hp => ⟨c.names_ident a ha, (hc.parser_init ha hp).2.1⟩) hes hnd]
  rfl

theorem AttrsClass.RoundTrip.positional_count (hc : c.RoundTrip rt cls)
    {parser : List (Action Decoder)} (h : fillParser rt cls c = .ok parser) :
    (parser.filter (·.optionStrings = [])).length =
      ((c.fields.filter (·.init)).filter (·.default = .nothing)).length := by
  simpa using congrArg List.length (hc.positional_dests h)

theorem AttrsClass.RoundTrip.keys_nodup (hc : c.RoundTrip rt cls) :
    ((c.fields.filter (·.parser.isSome)).map (extractKey c)).Nodup :=
  ((c.names_nodup.of_map _).filter _).map_on fun x hx y hy e => by
    obtain ⟨hx, hpx⟩ := List.mem_filter.mp hx
    obtain ⟨hy, hpy⟩ := List.mem_filter.mp hy
    rw [(extractKey_plain hc.plain (c.names_ident x hx) (hc.parser_init hx hpx).2.1).1,
      (extractKey_plain hc.plain (c.names_ident y hy) (hc.parser_init hy hpy).2.1).1] at e
    have hname : x.name = y.name := String.ext (by simpa using congrArg String.data e)
    exact List.inj_on_of_nodup_map c.names_nodup hx hy hname

theorem AttrsClass.RoundTrip.parserKwargs_keys (hc : c.RoundTrip rt cls) (ns : Dict PyValue) :
    ∀ k ∈ (c.parserKwargs ns).map (·.1), ∃ a ∈ c.fields, a.init ∧ k = .str a.initName := by
  intro k hk
  obtain ⟨a, ⟨ha, hp⟩, rfl⟩ : ∃ a, (a ∈ c.fields ∧ a.parser.isSome) ∧ PyValue.str a.initName = k := by
    simpa [AttrsClass.parserKwargs] using hk
  exact ⟨a, ha, (hc.parser_init ha hp).1, rfl⟩

theorem AttrsClass.RoundTrip.extractArgs_eq (hc : c.RoundTrip rt cls) {ns : Dict PyValue}
    (pop : Bool) (hget : ∀ a ∈ c.fields, a.parser.isSome →
      ns.get (.str (extractKey c a)) = some (parsedValue c ns a)) :
    (extractArgs c ns true true pop).1 =
        ((c.fields.filter (·.init)).filter (·.default = .nothing)).map (parsedValue c ns) ∧
      (extractArgs c ns true true pop).2.1 =
        (c.fields.filter fun a => a.parser.isSome ∧ a.default ≠ .nothing).map
          fun a => (.str a.initName, parsedValue c ns a) := by
  obtain ⟨h₁, h₂⟩ := extractStep_foldl pop (parsedValue c ns) c.fields [] [] ns c.names_nodup
    hc.keys_nodup (by simp) hget
  -- a parser field's parameter is its name
  have hkw : ((c.fields.filter fun a => a.parser.isSome ∧ a.default ≠ .nothing).map
      fun a => (PyValue.str a.name, parsedValue c ns a)) =
      (c.fields.filter fun a => a.parser.isSome ∧ a.default ≠ .nothing).map
        fun a => (PyValue.str a.initName, parsedValue c ns a) := by
    refine List.map_congr_left fun a ha => ?_
    obtain ⟨ha, hp⟩ := List.mem_filter.mp ha
    rw [(hc.parser_init ha (of_decide_eq_true hp).1).2.2]
  simp only [extractArgs, h₁, h₂, List.nil_append, List.map_map, Function.comp_def, hc.mandatory_eq, hkw,
    and_self]

theorem AttrsClass.RoundTrip.fromArgs_eq (hc : c.RoundTrip rt cls) {ns : Dict PyValue}
    (pop : Bool) (hget : ∀ a ∈ c.fields, a.parser.isSome →
      ns.get (.str (extractKey c a)) = some (parsedValue c ns a)) :
    (fromArgs c (.namespace ns) pop).map Prod.fst = (c.call [] (c.parserKwargs ns)).mapError .call := by
  obtain ⟨h₁, h₂⟩ := hc.extractArgs_eq pop hget
  have hparser : ∀ a ∈ c.fields, a.parser.isSome → a.init := fun a ha h => (hc.parser_init ha h).1
  have hopt : ∀ a ∈ c.fields, (a.parser.isSome ∧ a.default ≠ .nothing : Bool) → a.init :=
    fun a ha h => hparser a ha (of_decide_eq_true h).1
  rw [fromArgs_namespace, h₁, h₂, c.call_congr (c.bind_positional _ _ _ ?keys
    (hc.parserKwargs_keys ns) ?mand ?opt)]
  case keys =>
    intro k hk
    obtain ⟨a, ⟨ha, hp, hd⟩, rfl⟩ : ∃ a, (a ∈ c.fields ∧ a.parser.isSome ∧ ¬ a.default = .nothing) ∧
        PyValue.str a.initName = k := by simpa using hk
    exact ⟨a, ha, hparser a ha hp, hd, rfl⟩
  case mand =>
    intro a ha hi hd
    rw [AttrsClass.parserKwargs, c.get_initNames hparser _ ha hi,
      if_pos (hc.mandatory_parsed a ha hi hd)]
  case opt =>
    intro a ha hi hd
    rw [AttrsClass.parserKwargs, c.get_initNames hopt _ ha hi, c.get_initNames hparser _ ha hi]
    simp [hd]

theorem AttrsClass.RoundTrip.fromArgs_parse (hc : c.RoundTrip rt cls)
    {parser : List (Action Decoder)} (hfill : fillParser rt cls c = .ok parser) {args : List Arg}
    {ns : Dict PyValue} (hparse : parseArgs (Decoder.run rt) parser args = .ok ns) (pop : Bool) :
    (fromArgs c (.namespace ns) pop).map Prod.fst = (c.call [] (c.parserKwargs ns)).mapError .call := by
  refine hc.fromArgs_eq pop fun a ha hp => ?_
  obtain ⟨act, hact, hd⟩ := (hc.parser_dests hfill).2 a ha hp
  obtain ⟨v, hv⟩ := Option.isSome_iff_exists.mp (hd ▸ parseArgs_get _ hparse act hact)
  simp [parsedValue, hv]

theorem AttrsClass.RoundTrip.key_inj (hc : c.RoundTrip rt cls) {a b : Attribute}
    (ha : a ∈ c.fields) (hb : b ∈ c.fields) (hpa : a.parser.isSome) (hpb : b.parser.isSome)
    (h : extractKey c a = extractKey c b) : a = b :=
  List.inj_on_of_nodup_map hc.keys_nodup (List.mem_filter.mpr ⟨ha, hpa⟩)
    (List.mem_filter.mpr ⟨hb, hpb⟩) h

theorem AttrsClass.RoundTrip.mem_fieldEntries (hc : c.RoundTrip rt cls)
    {es : List (String × Kwargs Decoder)}
    (hes : parserEntries rt cls c.parserPrefix.prepareValue c.fields = .ok es) {a : Attribute}
    (ha : a ∈ c.fields) {src : ParserMetaSource} (hsrc : a.parser = some src) {m : ParserMeta}
    (hm : resolveMeta rt src = .ok m) {es' : List (String × Kwargs Decoder)}
    (hf : fieldEntries rt cls c.parserPrefix.prepareValue a m = .ok es')
    {e : String × Kwargs Decoder} (he : e ∈ es) (hd : argDest e.1 e.2 = extractKey c a) :
    e ∈ es' := by
  obtain ⟨b, hb, src', m', es'', hpb, hrb, hfb, he'⟩ := parserEntries_mem hes e he
  obtain ⟨-, hu, hdest⟩ := AttrsClass.parserFieldOk_spec (hc.parser_fields b hb) hpb
  have hkey := fieldEntries_dest hc.plain (c.names_ident b hb) hu (hdest m' hrb) hfb e he'
  obtain rfl := hc.key_inj hb ha (by simp [hpb]) (by simp [hsrc]) (hkey.symm.trans hd)
  obtain rfl := Option.some.inj (hpb.symm.trans hsrc)
  obtain rfl := Except.ok.inj (hrb.symm.trans hm)
  obtain rfl := Except.ok.inj (hfb.symm.trans hf)
  exact he'

theorem AttrsClass.RoundTrip.storeBool_switch (hc : c.RoundTrip rt cls)
    {parser : List (Action Decoder)} (hfill : fillParser rt cls c = .ok parser) {a : Attribute}
    (ha : a ∈ c.fields) {src : ParserMetaSource} (hsrc : a.parser = some src) {m : ParserMeta}
    (hm : resolveMeta rt src = .ok m) (hsb : m.action = some "store_bool") {v : PyValue}
    (hd : a.default.value? = some v) :
    extractKey c a = a.name ∧ ∃ E D, Switch parser a.name ("--" ++ replaceChar '_' '-' a.name)
      ("--" ++ replaceChar '_' '-' ("no" ++ a.name)) E D ∧
      E.parsedDefault (Decoder.run rt) = rt.asdict (m.default.getD v) := by
  obtain ⟨es, hes, rfl, -⟩ := fillParser_ok hc.names_distinct hfill
  have hnames : (es.map (·.1)).Nodup := by
    simpa [AttrsClass.namesDistinct, hes] using hc.names_distinct
  obtain ⟨m', es', hr, hf, hin⟩ := parserEntries_cover hes a ha src hsrc
  obtain rfl : m = m' := Except.ok.inj (hm.symm.trans hr)
  obtain ⟨-, hu, hdest⟩ := AttrsClass.parserFieldOk_spec (hc.parser_fields a ha) hsrc
  have hpfx : c.parserPrefix.extractText = "" := (hdest m hm).1 hsb
  have hkey : extractKey c a = a.name := by
    rw [(extractKey_plain hc.plain (c.names_ident a ha) hu).1, hpfx, String.empty_append]
  obtain ⟨e, d, rfl, hen, hdn, hea, hda, hed, hdd, hec, hdc, hedf, het⟩ :=
    fieldEntries_storeBool_ok hf hsb hd hu
  rw [withPrefix_prepareValue hc.plain.ne_none, hpfx, String.empty_append] at hen hdn
  have hs := switch_of_entries hnames hin
    (fun x hx hxd => List.mem_pair.mp (hc.mem_fieldEntries hes ha hsrc hm hf hx (hxd.trans hkey.symm)))
    (ofCall_flag hen hea hed hec) (ofCall_flag hdn hda hdd hdc)
  rw [hen, hdn] at hs
  refine ⟨hkey, _, _, hs, ?_⟩
  rw [Action.parsedDefault_of_type _ het]
  simp [Action.ofCall, hedf]

theorem AttrsClass.RoundTrip.positional_action (hc : c.RoundTrip rt cls)
    {parser : List (Action Decoder)} (h : fillParser rt cls c = .ok parser) {i : Nat}
    {a : Attribute} (hi : ((c.fields.filter (·.init)).filter (·.default = .nothing))[i]? = some a) :
    ∃ src m p, a.parser = some src ∧ resolveMeta rt src = .ok m ∧
      AttrParserArgs.init cls a m c.parserPrefix.prepareValue = .ok p ∧
      (parser.filter (·.optionStrings = []))[i]? = some (Action.ofCall p.name (p.kwargs rt)) ∧
      (Action.ofCall p.name (p.kwargs rt)).dest = extractKey c a ∧
      ∀ b ∈ parser, b.dest = extractKey c a → b = Action.ofCall p.name (p.kwargs rt) := by
  have hdests := hc.positional_dests h
  obtain ⟨es, hes, rfl, hnd⟩ := fillParser_ok hc.names_distinct h
  have hmem := List.getElem?_mem hi
  simp only [List.mem_filter, decide_eq_true_eq] at hmem
  obtain ⟨⟨ha, hinit⟩, hdef⟩ := hmem
  obtain ⟨src, hsrc⟩ := Option.isSome_iff_exists.mp (hc.mandatory_parsed a ha hinit hdef)
  obtain ⟨m, es', hm, hf, hin⟩ := parserEntries_cover hes a ha src hsrc
  obtain ⟨-, hu, -⟩ := AttrsClass.parserFieldOk_spec (hc.parser_fields a ha) hsrc
  obtain ⟨hkey, hdash, -⟩ := extractKey_plain hc.plain (c.names_ident a ha) hu
  have hpos : isPositional (withPrefix c.parserPrefix.prepareValue a.name) := by
    rw [withPrefix_prepareValue hc.plain.ne_none, ← hkey]
    exact isPositional_of_head (head_ne_of_not_mem hdash)
  obtain ⟨p, hp, rfl⟩ := fieldEntries_mandatory hf hu hpos hdef fun e he => hnd e (hin.subset he)
  -- every action storing under the field's key comes from its one entry
  have honly : ∀ b ∈ es.map (fun e => Action.ofCall e.1 e.2), b.dest = extractKey c a →
      b = Action.ofCall p.name (p.kwargs rt) := by
    intro b hb hbd
    obtain ⟨x, hx, rfl⟩ := List.mem_map.mp hb
    rw [List.mem_singleton.mp (hc.mem_fieldEntries hes ha hsrc hm hf hx (by simpa using hbd))]
  obtain ⟨A, hA, hAd⟩ : ∃ A, ((es.map fun e => Action.ofCall e.1 e.2).filter
      (·.optionStrings = []))[i]? = some A ∧ A.dest = extractKey c a := by
    have := congrArg (·[i]?) hdests
    simp only [List.getElem?_map, hi, Option.map_some'] at this
    exact Option.map_eq_some'.mp this
  obtain rfl := honly A (List.mem_filter.mp (List.getElem?_mem hA)).1 hAd
  exact ⟨src, m, p, hsrc, hm, hp, hA, hAd, honly⟩

theorem AttrsClass.RoundTrip.option_action (hc : c.RoundTrip rt cls)
    {parser : List (Action Decoder)} (h : fillParser rt cls c = .ok parser) {a : Attribute}
    (ha : a ∈ c.fields) {src : ParserMetaSource} (hsrc : a.parser = some src) {m : ParserMeta}
    (hm : resolveMeta rt src = .ok m) (hsb : m.action ≠ some "store_bool") {p : AttrParserArgs}
    (hp : AttrParserArgs.init cls a m c.parserPrefix.prepareValue = .ok p)
    (hdef : a.default ≠ .nothing) :
    Action.ofCall p.name (p.kwargs rt) ∈ parser ∧
      (Action.ofCall p.name (p.kwargs rt)).optionStrings = [p.name] ∧
      (Action.ofCall p.name (p.kwargs rt)).dest = extractKey c a ∧
      (∀ b ∈ parser, b.dest = extractKey c a → b = Action.ofCall p.name (p.kwargs rt)) ∧
      ∀ b ∈ parser, b.optionStrings.contains p.name → b = Action.ofCall p.name (p.kwargs rt) := by
  obtain ⟨es, hes, rfl, -⟩ := fillParser_ok hc.names_distinct h
  have hnames : (es.map (·.1)).Nodup := by
    simpa [AttrsClass.namesDistinct, hes] using hc.names_distinct
  obtain ⟨m', es', hr, hf, hin⟩ := parserEntries_cover hes a ha src hsrc
  obtain rfl : m = m' := Except.ok.inj (hm.symm.trans hr)
  obtain ⟨-, hu, hdest⟩ := AttrsClass.parserFieldOk_spec (hc.parser_fields a ha) hsrc
  obtain ⟨p', hp', rfl⟩ := ((fieldEntries_ok hf).resolve_left fun h => hsb h.1).2
  obtain rfl : p = p' := Except.ok.inj (hp.symm.trans hp')
  have he : (p.name, p.kwargs rt) ∈ es := hin.subset (List.mem_singleton_self _)
  have hopt : isPositional p.name = false := by
    rw [(AttrParserArgs.init_ok hp hu).1, if_neg hdef, isPositional_option]
  refine ⟨List.mem_map_of_mem _ he, by simp [hopt],
    fieldEntries_dest hc.plain (c.names_ident a ha) hu (hdest m hm) hf _ (List.mem_singleton_self _),
    fun b hb hbd => ?_, fun b hb hbo => ?_⟩
  · obtain ⟨x, hx, rfl⟩ := List.mem_map.mp hb
    rw [List.mem_singleton.mp (hc.mem_fieldEntries hes ha hsrc hm hf hx (by simpa using hbd))]
  · -- the option string is the entry's name, which no other entry has
    obtain ⟨x, hx, rfl⟩ := List.mem_map.mp hb
    have hx1 : x.1 = p.name := by
      by_cases hpx : isPositional x.1 <;> simp [hpx] at hbo
      exact hbo.symm
    rw [List.inj_on_of_nodup_map hnames hx he hx1]

theorem AttrsClass.RoundTrip.option_get (hc : c.RoundTrip rt cls)
    {parser : List (Action Decoder)} (hfill : fillParser rt cls c = .ok parser) {args : List Arg}
    {ns : Dict PyValue} (hparse : parseArgs (Decoder.run rt) parser args = .ok ns)
    {a : Attribute} (ha : a ∈ c.fields) {src : ParserMetaSource} (hsrc : a.parser = some src)
    {m : ParserMeta} (hm : resolveMeta rt src = .ok m) (hsb : m.action ≠ some "store_bool")
    {p : AttrParserArgs} (hp : AttrParserArgs.init cls a m c.parserPrefix.prepareValue = .ok p)
    (hdef : a.default ≠ .nothing) :
    ns.get (.str (extractKey c a)) = some (((Action.ofCall p.name (p.kwargs rt)).lastValue
        (Decoder.run rt) p.name (canonArgs parser args)).getD
        ((Action.ofCall p.name (p.kwargs rt)).parsedDefault (Decoder.run rt))) ∧
      ∀ value, .opt p.name value ∈ canonArgs parser args →
        ∃ v, (Action.ofCall p.name (p.kwargs rt)).optionValue (Decoder.run rt) p.name value = .ok v := by
  obtain ⟨hA, ho, hAd, hdest, hname⟩ := hc.option_action hfill ha hsrc hm hsb hp hdef
  rw [← hAd]
  exact parseArgs_get_single _ hparse hA ho (fun b hb hbd => hdest b hb (hbd.trans hAd)) hname

theorem AttrsClass.RoundTrip.positional_get (hc : c.RoundTrip rt cls)
    {parser : List (Action Decoder)} (hfill : fillParser rt cls c = .ok parser) {args : List Arg}
    {ns : Dict PyValue} (hparse : parseArgs (Decoder.run rt) parser args = .ok ns) {i : Nat}
    {a : Attribute} (hi : ((c.fields.filter (·.init)).filter (·.default = .nothing))[i]? = some a) :
    ∃ t src m p, (args.filterMap Arg.token?)[i]? = some t ∧ a.parser = some src ∧
      resolveMeta rt src = .ok m ∧ AttrParserArgs.init cls a m c.parserPrefix.prepareValue = .ok p ∧
      ns.get (.str (extractKey c a)) = some (Decoder.run rt p.type t) := by
  obtain ⟨src, m, p, hsrc, hm, hp, hA, hAd, honly⟩ := hc.positional_action hfill hi
  obtain ⟨hAmem, hApos⟩ := List.mem_filter.mp (List.getElem?_mem hA)
  have hApos : (Action.ofCall p.name (p.kwargs rt)).optionStrings = [] := of_decide_eq_true hApos
  obtain ⟨hk, -⟩ := Action.store_of_supported (parseArgs_supported _ hparse _ hAmem) hApos
  have hnd : ((parser.filter (·.optionStrings = [])).map (·.dest)).Nodup := by
    rw [hc.positional_dests hfill, ← hc.mandatory_eq]
    exact hc.keys_nodup.sublist ((List.monotone_filter_right _ fun a h => by
      simp only [Bool.decide_and, Bool.and_eq_true, decide_eq_true_eq] at h; exact h.1).map _)
  obtain ⟨t, v, ht, hv, hget⟩ :=
    parseArgs_get_pos _ hparse hnd hA fun b hb hbd => honly b hb (hbd.trans hAd) ▸ hApos
  obtain ⟨rfl, -⟩ := Action.storeValue_ok _ hv
  have hconv : (Action.ofCall p.name (p.kwargs rt)).convert (Decoder.run rt) t =
      Decoder.run rt p.type t := by
    simp only [Action.convert, show (Action.ofCall p.name (p.kwargs rt)).type = some p.type from
      AttrParserArgs.kwargs_type hk]
  rw [hconv, hAd] at hget
  exact ⟨t, src, m, p, ht, hsrc, hm, hp, hget⟩

theorem AttrsClass.RoundTrip.parser_supported (hc : c.RoundTrip rt cls)
    {parser : List (Action Decoder)} (hfill : fillParser rt cls c = .ok parser) :
    ∀ act ∈ parser, act.supported := by
  obtain ⟨es, hes, rfl, -⟩ := fillParser_ok hc.names_distinct hfill
  have hall := hc.supported
  simp only [AttrsClass.argsSupported, hes, List.all_eq_true] at hall
  exact List.forall_mem_map.mpr hall

theorem AttrsClass.RoundTrip.parsedValue_eq (hc : c.RoundTrip rt cls)
    {parser : List (Action Decoder)} (hfill : fillParser rt cls c = .ok parser) {args : List Arg}
    {ns : Dict PyValue} (hparse : parseArgs (Decoder.run rt) parser args = .ok ns)
    {a : Attribute} (ha : a ∈ c.fields) (hp : a.parser.isSome) :
    parsedValue c ns a = c.argValue rt cls (canonArgs parser args) a := by
  obtain ⟨src, hsrc⟩ := Option.isSome_iff_exists.mp hp
  obtain ⟨es, hes, -, -⟩ := fillParser_ok hc.names_distinct hfill
  obtain ⟨m, es', hm, hf, -⟩ := parserEntries_cover hes a ha src hsrc
  by_cases hdef : a.default = .nothing
  · -- a mandatory field: the token at its place
    have hmand : a ∈ (c.fields.filter (·.init)).filter (·.default = .nothing) := by
      simp [ha, (hc.parser_init ha hp).1, hdef]
    obtain ⟨t, src', m', p, ht, hsrc', hm', hp', hget⟩ :=
      hc.positional_get hfill hparse (List.getElem?_indexOf hmand)
    obtain rfl := Option.some.inj (hsrc.symm.trans hsrc')
    obtain rfl := Except.ok.inj (hm.symm.trans hm')
    simp only [parsedValue, hget, Option.getD_some, AttrsClass.argValue, hsrc, hm, hp', hdef, ne_eq,
      not_true_eq_false, and_false, if_false, if_true, canonArgs_tokens, ht, Option.elim]
  · by_cases hsb : m.action = some "store_bool"
    · -- a `store_bool` field: its switch
      obtain ⟨v, hv⟩ : ∃ v, a.default.value? = some v :=
        Option.ne_none_iff_exists'.mp (mt value?_eq_none.mp hdef)
      obtain ⟨hkey, E, D, hs, hE⟩ := hc.storeBool_switch hfill ha hsrc hm hsb hv
      simp [parsedValue, hkey, hs.parseArgs_get _ hparse, hE, AttrsClass.argValue, hsrc, hm, hsb, hdef,
        hv]
    · -- any other field: its option
      obtain ⟨p, hp, -⟩ := ((fieldEntries_ok hf).resolve_left fun h => hsb h.1).2
      obtain ⟨hget, hok⟩ := hc.option_get hfill hparse ha hsrc hm hsb hp hdef
      obtain ⟨hA, -⟩ := hc.option_action hfill ha hsrc hm hsb hp hdef
      rw [parsedValue, hget, Option.getD_some,
        AttrParserArgs.argValue_eq (parseArgs_supported _ hparse _ hA) hok]
      simp [AttrsClass.argValue, hsrc, hm, hsb, hdef, hp]

theorem AttrsClass.RoundTrip.parserKwargs_eq (hc : c.RoundTrip rt cls)
    {parser : List (Action Decoder)} (hfill : fillParser rt cls c = .ok parser) {args : List Arg}
    {ns : Dict PyValue} (hparse : parseArgs (Decoder.run rt) parser args = .ok ns) :
    c.parserKwargs ns = c.cliKwargs rt cls (canonArgs parser args) :=
  List.map_congr_left fun a ha => by
    obtain ⟨ha, hp⟩ := List.mem_filter.mp ha
    rw [hc.parsedValue_eq hfill hparse ha hp]

def sampleRuntime : Runtime :=
  ⟨.str, .str, fun _ => .str, id, fun _ => none, fun _ _ => rfl⟩

def sampleSchema : AttrsClass where
  fields :=
    [⟨"source", .nothing, .none, true, some (.inline {})⟩,
     ⟨"release", .value (.str "2.0.0"), .none, true, some (.inline { dest := some "release" })⟩,
     ⟨"dry_run", .value (.bool false), .bool, true, some (.inline {})⟩,
     ⟨"verbose", .value (.bool false), .none, true,
       some (.inline { action := some "store_bool", help := some "output" })⟩]
  names_nodup := by decide
  names_ident := by decide
  init_names_nodup := by decide
  mandatory_first := by decide

def sampleParser : List (Action Decoder) :=
  [⟨[], "source", .store, .none, .none, some (.valueFromStr .attrParserArgs .none), none, none, true⟩,
   ⟨["--release"], "release", .store, .str "2.0.0", .none,
     some (.valueFromStr .attrParserArgs .none), none, none, false⟩,
   ⟨["--dry-run"], "dry_run", .storeTrue, .bool false, .bool true, none, none, none, false⟩,
   ⟨["--verbose"], "verbose", .storeConst, .bool false, .bool true, none, none, none, false⟩,
   ⟨["--noverbose"], "verbose", .storeConst, .bool true, .bool false, none, none, none, false⟩]

theorem sampleSchema_roundTrip : sampleSchema.RoundTrip sampleRuntime .attrParserArgs :=
  ⟨⟨by decide, by decide, by decide⟩, by decide, by decide, by decide, by decide⟩

theorem fillParser_sampleSchema :
    fillParser sampleRuntime .attrParserArgs sampleSchema = .ok sampleParser := rfl

def underscoreSchema : AttrsClass where
  fields := [⟨"_source", .nothing, .none, true, some (.inline {})⟩]
  names_nodup := by decide
  names_ident := by decide
  init_names_nodup := by decide
  mandatory_first := by decide

def destSchema : AttrsClass where
  fields := [⟨"release", .value (.str "2.0.0"), .none, true, some (.inline { dest := some "target" })⟩]
  names_nodup := by decide
  names_ident := by decide
  init_names_nodup := by decide
  mandatory_first := by decide

def prefixedBoolSchema : AttrsClass where
  fields := [⟨"verbose", .value (.bool false), .none, true,
    some (.inline { action := some "store_bool", help := some "output" })⟩]
  parserPrefix := .str "repo_"
  names_nodup := by decide
  names_ident := by decide
  init_names_nodup := by decide
  mandatory_first := by decide

def nonePrefixSchema : AttrsClass where
  fields := [⟨"source", .nothing, .none, true, some (.inline {})⟩]
  parserPrefix := .none
  names_nodup := by decide
  names_ident := by decide
  init_names_nodup := by decide
  mandatory_first := by decide

def collidingSchema : AttrsClass where
  fields :=
    [⟨"noverbose", .value (.str "all"), .none, true, some (.inline {})⟩,
     ⟨"verbose", .value (.bool false), .none, true,
       some (.inline { action := some "store_bool", help := some "output" })⟩]
  names_nodup := by decide
  names_ident := by decide
  init_names_nodup := by decide
  mandatory_first := by decide

/-- `fill_parser` on a fresh parser, `parse_args` and `from_args` on its namespace, in a row:
`none` when the parser cannot be built or the command line is rejected. -/
def roundTrip (rt : Runtime) (cls : ParserCls) (c : AttrsClass) (args : List Arg) :
    Option (Except ParserFiller.FromArgsError (List (String × PyValue))) :=
  (fillParser rt cls c).toOption.bind fun parser =>
    (parseArgs (Decoder.run rt) parser args).toOption.map fun ns =>
      (fromArgs c (.namespace ns) true).map Prod.fst

/-- The round trip through a parser. `fill_parser` gives every parser field an argument whose
destination is the key `extract_args` reads, each one the argparse model parses. For any command
line the parser accepts, `from_args` on the namespace returns what calling the class directly
with each parser field set to the value the command line gives it returns, converters,
validators and `__attrs_post_init__` included. On a dict it raises `UnboundLocalError`. -/
theorem fromArgs_roundTrip (hc : c.RoundTrip rt cls) {parser : List (Action Decoder)}
    (hfill : fillParser rt cls c = .ok parser) :
    (∀ act ∈ parser, act.supported ∧ ∃ a ∈ c.fields, a.parser.isSome ∧ act.dest = extractKey c a) ∧
      (∀ a ∈ c.fields, a.parser.isSome → ∃ act ∈ parser, act.dest = extractKey c a) ∧
      (∀ args ns pop, parseArgs (Decoder.run rt) parser args = .ok ns →
        (fromArgs c (.namespace ns) pop).map Prod.fst =
          (c.call [] (c.cliKwargs rt cls (canonArgs parser args))).mapError .call) ∧
      ∀ d pop, fromArgs c (.dict d) pop = .error .unboundLocal := by
  obtain ⟨hdest, hcover⟩ := hc.parser_dests hfill
  refine ⟨fun act hact => ⟨hc.parser_supported hfill act hact, hdest act hact⟩, hcover,
    fun args ns pop hparse => ?_, fun _ _ => rfl⟩
  rw [hc.fromArgs_parse hfill hparse pop, hc.parserKwargs_eq hfill hparse]

theorem fromArgs_roundTrip_sample :
    sampleSchema.RoundTrip sampleRuntime .attrParserArgs ∧
      fillParser sampleRuntime .attrParserArgs sampleSchema = .ok sampleParser ∧
      (∀ act ∈ sampleParser, act.supported ∧ ∃ a ∈ sampleSchema.fields, a.parser.isSome ∧
          act.dest = extractKey sampleSchema a) ∧
      (∀ a ∈ sampleSchema.fields, a.parser.isSome →
          ∃ act ∈ sampleParser, act.dest = extractKey sampleSchema a) ∧
      (∀ args ns pop, parseArgs (Decoder.run sampleRuntime) sampleParser args = .ok ns →
        (fromArgs sampleSchema (.namespace ns) pop).map Prod.fst =
          (sampleSchema.call [] (sampleSchema.cliKwargs sampleRuntime .attrParserArgs
            (canonArgs sampleParser args))).mapError .call) ∧
      ∀ d pop, fromArgs sampleSchema (.dict d) pop = .error .unboundLocal :=
  ⟨sampleSchema_roundTrip, fillParser_sampleSchema,
    fromArgs_roundTrip sampleSchema_roundTrip fillParser_sampleSchema⟩

/-- `argparse` takes `--verb` for `--verbose`, the one option string it begins, so the last flag
given wins. -/
example : roundTrip sampleRuntime .attrParserArgs sampleSchema
    [.pos "/iso/a.iso", .opt "--noverbose" none, .opt "--verb" none, .opt "--rel" (some "2.1.0")] =
    some (.ok [("source", .str "/iso/a.iso"), ("release", .str "2.1.0"),
      ("dry_run", .bool false), ("verbose", .bool true)]) := by decide

theorem fromArgs_roundTrip_breaks :
    fromArgs sampleSchema (.dict [(.str "source", .str "/iso/a.iso")]) true = .error .unboundLocal ∧
      roundTrip sampleRuntime .attrParserArgs underscoreSchema [.pos "/iso/a.iso"] =
        some (.error (.call (.missing "source"))) ∧
      underscoreSchema.call [] [(.str "source", .str "/iso/a.iso")] =
        .ok [("_source", .str "/iso/a.iso")] ∧
      roundTrip sampleRuntime .attrParserArgs destSchema [.opt "--release" (some "2.1.0")] =
        some (.ok [("release", .str "2.0.0")]) ∧
      roundTrip sampleRuntime .attrParserArgs prefixedBoolSchema [.opt "--repo-verbose" none] =
        some (.ok [("verbose", .bool false)]) ∧
      roundTrip sampleRuntime .attrParserArgs nonePrefixSchema [.pos "/iso/a.iso"] =
        some (.error (.call (.missing "source"))) ∧
      (parserEntries sampleRuntime .attrParserArgs collidingSchema.parserPrefix.prepareValue
        collidingSchema.fields).map (·.map (·.1)) = .ok ["--noverbose", "--verbose", "--noverbose"] ∧
      (fillParser sampleRuntime .attrParserArgs collidingSchema).map (·.map (·.dest)) =
        .ok ["verbose", "verbose"] := by
  decide

end RoundTrip

/-! ## What from_args hands back -/

theorem fromArgs_snd {c : AttrsClass} {ns : Dict PyValue} {pop : Bool}
    {inst : List (String × PyValue)} {rest : ParsedArgs}
    (h : fromArgs c (.namespace ns) pop = .ok (inst, rest)) :
    rest = if pop then .dict (extractArgs c ns true true pop).2.2 else .namespace ns := by
  simp only [fromArgs] at h
  split at h <;> cases h
  rfl

/-- What `from_args` hands back for the next consumer: without `pop` the namespace itself; with
`pop` a dict that holds every key of the parse other than the parser fields' keys, with its value
unchanged, and none of those. -/
theorem fromArgs_leftover {c : AttrsClass} {ns : Dict PyValue} (hnd : (ns.map (·.1)).Nodup)
    {pop : Bool} {inst : List (String × PyValue)} {rest : ParsedArgs}
    (h : fromArgs c (.namespace ns) pop = .ok (inst, rest)) :
    (pop = false → rest = .namespace ns) ∧
      (pop = true → ∃ r, rest = .dict r ∧ ∀ k, r.get k =
        if k ∈ (c.fields.filter (·.parser.isSome)).map (fun a => PyValue.str (extractKey c a))
        then none else ns.get k) := by
  have hr := fromArgs_snd h
  refine ⟨fun hp => by simpa [hp] using hr, fun hp => ⟨_, by simpa [hp] using hr, fun k => ?_⟩⟩
  subst hp
  exact extractStep_foldl_rest c.fields ([], [], ns) hnd k

def sampleParse : Dict PyValue :=
  [(.str "source", .str "/iso/a.iso"), (.str "release", .str "2.0.0"),
   (.str "dry_run", .bool false), (.str "verbose", .bool false), (.str "command", .str "set")]

theorem fromArgs_leftover_sample :
    (sampleParse.map (·.1)).Nodup ∧
      fromArgs sampleSchema (.namespace sampleParse) true =
        .ok ([("source", .str "/iso/a.iso"), ("release", .str "2.0.0"), ("dry_run", .bool false),
          ("verbose", .bool false)], .dict [(.str "command", .str "set")]) ∧
      ∃ r, ParsedArgs.dict [(.str "command", .str "set")] = .dict r ∧ ∀ k, r.get k =
        if k ∈ (sampleSchema.fields.filter (·.parser.isSome)).map
            (fun a => PyValue.str (extractKey sampleSchema a))
        then none else sampleParse.get k :=
  have hnd : (sampleParse.map (·.1)).Nodup := by decide
  have h : fromArgs sampleSchema (.namespace sampleParse) true =
      .ok ([("source", .str "/iso/a.iso"), ("release", .str "2.0.0"), ("dry_run", .bool false),
        ("verbose", .bool false)], .dict [(.str "command", .str "set")]) := by decide
  ⟨hnd, h, (fromArgs_leftover hnd h).2 rfl⟩

end Provisioner
