import HtmlMend.Proofs.Page.Conservation
import HtmlMend.Proofs.Page.Successor

/-! # Pages: a mended page is mended

What is written for a page is left as it is when it is mended again (`mend_mend`), if no start tag
of the page has an empty value without quotes or a dotted capital I in the name of an attribute. The
passages of the page have successors, which are the passages of what is written (`exists_sequel`):
so the page that is written is read as it was written, and the second run writes it once more. -/

namespace HtmlMend.Page

open Input Markup Output

variable {xml inScript : Bool} {o : Outline} {token : Token} {line : Nat} {p : Passage}
  {settings : Settings} {primary : Option Nat}

/-! ### Scripts -/

/-- Nothing begins in a script: what may begin there has begun before its start tag. -/
def ScriptQuiet (inScript : Bool) (o : Outline) : Prop :=
  inScript = true → o.mainState.begun = none

theorem ScriptQuiet.outside {rest : List Char} (quiet : ScriptQuiet inScript o)
    (valid : p.Valid xml inScript rest) (leaves : p.Leaves inScript line token)
    (added : o.mainState.added o.table.isSome token ≠ none) : inScript = false := by
  refine Bool.eq_false_iff.mpr fun inside => ?_
  cases p with
  | text opening chars =>
    obtain rfl := (Passage.leaves_text inScript line opening chars).unique leaves
    simp only [MainState.added] at added
    split at added
    · exact added rfl
    · exact added (quiet inside)
  | markup k raw =>
    obtain ⟨completes, visible⟩ := valid
    cases completes.form with
    | startTag w valid script => cases script.symm.trans inside
    | endTag name sp isName spaces script =>
      obtain rfl := (Passage.leaves_markup rfl).unique leaves
      refine added ?_
      rw [MainState.added, script inside]
      rfl
    | comment body first script => cases script.symm.trans inside
    | doctype text accepted first script => cases script.symm.trans inside
    | cdata raw form script => cases visible
    | xmlDeclaration raw form script => cases visible

theorem MainState.begun_after_text (f : MainState) (quiet : f.begun = none) (inTable : Bool)
    (data : String) (line : Option Int) (raw : String) :
    (f.after inTable (.text data line raw)).begun = none := by
  have added : f.added inTable (.text data line raw) = none := by
    rw [added, quiet, ite_self]
  rw [after, added]
  exact quiet

theorem ScriptQuiet.edit {rest : List Char} (quiet : ScriptQuiet inScript o) (settings : Settings)
    (valid : p.Valid xml inScript rest) (leaves : p.Leaves inScript line token) :
    ScriptQuiet (p.scriptAfter inScript) (o.edit settings token).outline := by
  intro inside
  rw [o.mainState_edit settings token]
  cases p with
  | text opening chars =>
    obtain rfl := (Passage.leaves_text inScript line opening chars).unique leaves
    exact MainState.begun_after_text _ (quiet inside) ..
  | markup k raw =>
    obtain ⟨completes, visible⟩ := valid
    cases completes.form with
    | startTag w valid script =>
      obtain rfl := (w.leaves_passage inScript line).unique leaves
      have name : w.key = "script" := by
        simpa [Passage.scriptAfter, WrittenTag.construct, Construct.scriptAfter, script] using inside
      have role : Element.ofName (w.startTag (some line)).name = .other := by
        change Element.ofName w.key = .other
        rw [name]
        decide
      rw [MainState.after, MainState.added, MainState.afterToken, role]
      exact MainState.begun_afterAdded_begun _
    | endTag name sp isName spaces script => cases inside
    | comment body first script => cases script.symm.trans inside
    | doctype text accepted first script => cases script.symm.trans inside
    | cdata raw form script => cases visible
    | xmlDeclaration raw form script => cases visible

/-! ### Passages of what is added -/

/-- The start tag of an added `main` element. -/
def mainStartTag : WrittenTag := .ofStart false "main" .empty

theorem valid_mainStartTag : mainStartTag.Valid xml :=
  WrittenTag.valid_ofStart (by decide +kernel) fun _ none => nomatch none

/-- **What is added is a passage**, and no other begins in the place of it. -/
theorem exists_mainPassage {fragment : Fragment}
    (h : fragment = .mainStart ∨ fragment = .mainEnd) (xml : Bool) :
    ∃ m : Passage, (∀ rest, m.Valid xml false rest) ∧ m.xmlAfter xml = xml ∧
      m.scriptAfter false = false ∧ m.raw.head? = some '<' ∧ String.ofList m.raw = fragment.text ∧
      ∀ line, ∃ token, m.tokens false line = [token] ∧ MainTag fragment token ∧
        token.raw = fragment.text := by
  rcases h with rfl | rfl
  · have text : String.ofList mainStartTag.raw = Fragment.mainStart.text := by
      rw [mainStartTag, WrittenTag.raw_ofStart, String.ofList_toList]
      rfl
    have name : mainStartTag.key = "main" := by decide
    exact ⟨mainStartTag.passage, WrittenTag.valid_passage valid_mainStartTag, rfl, by decide, rfl,
      text, fun line => ⟨.startTag (mainStartTag.startTag (some line)), rfl, .start _ name, text⟩⟩
  · have text : String.ofList (endTagPassage "main").raw = Fragment.mainEnd.text := by decide
    exact ⟨endTagPassage "main", valid_endTagPassage (by decide +kernel) (by decide), rfl, rfl, rfl,
      text, fun line => ⟨_, rfl, .stop _ rfl, text⟩⟩

/-! ### Runs over passages -/

theorem writtenFrom_reports (o : Outline) (rest : List Token) {reports : List Token}
    (areReports : ∀ r ∈ reports, r.isReport = true) :
    writtenFrom settings o (reports ++ rest) = writtenFrom settings o rest := by
  induction reports with
  | nil => rfl
  | cons report reports ih =>
    have isReport := areReports report (by simp)
    cases report with
    | malformed => exact ih fun r mem => areReports r (by simp [mem])
    | _ => cases isReport

theorem writtenFrom_passage {rest : List Token} (leaves : p.Leaves inScript line token) :
    writtenFrom settings o (p.tokens inScript line ++ rest) =
      (o.edit settings token).written ++
        writtenFrom settings (o.edit settings token).outline rest := by
  obtain ⟨reports, split, areReports⟩ := leaves
  rw [split, List.append_assoc, writtenFrom_reports o _ areReports]
  rfl

theorem renderedText_singleton (e : Entry) (due : Bool) :
    renderedText primary due [e] = (Table.promote primary due e).text := by
  rw [renderedText, Table.renderSimple_cons, textOf_cons]
  exact String.append_empty

/-- The text of the entries of a share of which one may be promoted. -/
theorem renderedText_share {s : Share} {e : Entry} (own : s.own = some e) (due : Bool) :
    renderedText primary due s.entries =
      (s.added.map Fragment.text).getD "" ++ (Table.promote primary due e).text := by
  rw [Share.entries, own]
  cases s.added with
  | none => exact (renderedText_singleton e due).trans String.empty_append.symm
  | some fragment =>
    have text : renderedText primary due [{ fragment }] = fragment.text := by
      rw [renderedText_singleton, Table.promote_of_plain _ _ rfl rfl]
    have stays : Table.dueAfter primary due [{ fragment }] = due :=
      Table.dueNext_of_plain primary due (e := { fragment }) rfl rfl rfl
    change renderedText primary due ([({ fragment } : Entry)] ++ [e]) = fragment.text ++ _
    rw [renderedText_append, text, stays, renderedText_singleton]

/-! ### The end of the input -/

section Ends
variable (o : Outline) (line : Option Int)

theorem held_edit_end : (o.edit settings (.endOfInput line "")).outline.held = [] := by
  simp [Outline.held, Outline.table_edit_end]

end Ends

/-! ### Passages in the place of passages -/

/-- What a run writes for passages is passages that a second run leaves as they are. -/
structure Sequel (settings : Settings) (primary : Option Nat) (xml inScript : Bool) (o : Outline)
    (line : Nat) (ps qs : List Passage) : Prop where
  cut : Cut xml inScript qs
  stands : StandsIn (rawOf ps) (rawOf qs)
  written : textOf (writtenFrom settings o (tokensOf inScript line ps)) =
    renderedText primary false o.held ++ String.ofList (rawOf qs)
  again : ∀ (o' : Outline) (line' : Nat),
    Echoes primary (Table.dueAfter primary false o.held) o.mainState o.table o' →
    textOf (writtenFrom settings o' (tokensOf inScript line' qs)) =
      heldText o' ++ String.ofList (rawOf qs)

theorem dueAfter_held (primary : Option Nat) (shut : o.table = none) :
    Table.dueAfter primary false o.held = false := by
  simp [Outline.held, shut, Table.dueAfter]

theorem exists_sequel_nil (settings : Settings) (xml inScript : Bool) (o : Outline) (line : Nat) :
    ∃ primary, Sequel settings primary xml inScript o line [] [] := by
  obtain ⟨primary, decides, -⟩ := exists_decides o (.endOfInput (some line) "")
  refine ⟨primary, trivial, ⟨fun _ => rfl, fun h => by cases h⟩, ?_, fun o' line' echoes => ?_⟩
  · have rendered := rendered_edit settings decides
    have none : (o.share settings.options (.endOfInput (some line) "")).entries = [] := rfl
    rw [held_edit_end, none, List.append_nil, renderedText_nil, String.append_empty] at rendered
    simpa [tokensOf, writtenFrom] using rendered
  · have same : Again settings.options primary (Table.dueAfter primary false o.held) o
        (.endOfInput (some line) "") (.endOfInput (some line') "") :=
      .alike (.endOfInput ..) fun e own => by obtain rfl := Option.some.inj own; rfl
    have verbatim : Verbatim settings.options (.endOfInput (some line') "") :=
      fun o e own => by obtain rfl := Option.some.inj own; rfl
    have again := (echoes.again rfl (dueAfter_held primary) decides same verbatim).2
    have none : heldText (o'.edit settings (.endOfInput (some line') "")).outline = "" := by
      rw [heldText, held_edit_end]
      exact textOf_nil
    rw [none, String.append_empty] at again
    simpa [tokensOf, writtenFrom, Token.raw] using again

/-- A decision that is right at a token can be that on the table after it. -/
theorem exists_decides_with (o : Outline) (settings : Settings) (token : Token)
    (later : Option Nat) : ∃ primary, Decides primary o token ∧
      ((o.edit settings token).outline.table = none ∨ primary = later) := by
  cases table : (o.edit settings token).outline.table with
  | none =>
    obtain ⟨primary, decides, -⟩ := exists_decides o token
    exact ⟨primary, decides, .inl rfl⟩
  | some t =>
    rw [Outline.table_edit] at table
    split at table
    · cases table
    · next goesOn =>
      refine ⟨later, ⟨fun shut => ?_, fun _ _ closes => (goesOn closes).elim⟩, .inr rfl⟩
      rw [shut] at table
      cases table

/-- What is held after a token, if a table is open, is what was held before it and its entries. -/
theorem held_edit {t : Table} (open_ : (o.edit settings token).outline.table = some t) :
    (o.edit settings token).outline.held =
      o.held ++ (o.share settings.options token).entries := by
  rw [Outline.held, open_]
  rw [Outline.table_edit] at open_
  split at open_
  · cases open_
  · obtain ⟨before, table, rfl⟩ := Option.map_eq_some_iff.mp open_
    simp [Outline.entries_tableWith table]

theorem renderedText_decide {later : Option Nat}
    (which : (o.edit settings token).outline.table = none ∨ primary = later) :
    renderedText later false (o.edit settings token).outline.held =
      renderedText primary false (o.edit settings token).outline.held := by
  rcases which with shut | rfl
  · simp [Outline.held, shut, renderedText_nil]
  · rfl

/-- The second run is where the first is, whatever is decided on the next table. -/
theorem Echoes.decide {later : Option Nat} {o' : Outline}
    (which : (o.edit settings token).outline.table = none ∨ primary = later)
    (echoes : Echoes primary (Table.dueAfter primary (Table.dueAfter primary false o.held)
        (o.share settings.options token).entries)
      (o.edit settings token).outline.mainState (o.edit settings token).outline.table o') :
    Echoes later (Table.dueAfter later false (o.edit settings token).outline.held)
      (o.edit settings token).outline.mainState (o.edit settings token).outline.table o' := by
  refine ⟨echoes.mainState, ?_⟩
  rcases echoes.table.cases with ⟨shut, shut'⟩ | ⟨t, t', open_, -, -⟩
  · rw [shut, shut']
    trivial
  · obtain rfl := which.resolve_left (by simp [open_])
    rw [held_edit open_, Table.dueAfter, List.foldl_append]
    exact echoes.table

/-! ### A passage more -/

/-- A passage before others, with its token, and a passage in its place before their sequel. -/
structure Ahead (settings : Settings) (primary later : Option Nat) (xml inScript : Bool)
    (o : Outline) (line : Nat) (token : Token) (e : Entry) (p p' : Passage) (ps qs : List Passage) :
    Prop where
  valid : p.Valid xml inScript (rawOf ps)
  leaves : p.Leaves inScript line token
  own : (o.share settings.options token).own = some e
  decides : Decides primary o token
  which : (o.edit settings token).outline.table = none ∨ primary = later
  successor : Successor primary (Table.dueAfter primary false o.held) o xml inScript p p' token
  text : (Table.promote primary (Table.dueAfter primary false o.held) e).text =
    String.ofList p'.raw
  sequel : Sequel settings later (p.xmlAfter xml) (p.scriptAfter inScript)
    (o.edit settings token).outline (line + p.raw.count '\n') ps qs

section Ahead
variable {later : Option Nat} {e : Entry} {p' : Passage} {ps qs : List Passage}
  (options : settings.options = {})
  (h : Ahead settings primary later xml inScript o line token e p p' ps qs)
include h

theorem Ahead.cut : Cut xml inScript (p' :: qs) := by
  refine ⟨(h.successor.valid _ h.valid).congr h.sequel.stands, ?_⟩
  rw [h.successor.xmlAfter, h.successor.scriptAfter]
  exact h.sequel.cut

theorem Ahead.raw_ne_nil : rawOf (p :: ps) ≠ [] := by
  rw [rawOf_cons]
  exact List.append_ne_nil_of_left_ne_nil h.valid.raw_ne_nil _

theorem Ahead.stands : StandsIn (rawOf (p :: ps)) (rawOf (p' :: qs)) where
  ends none := (h.raw_ne_nil none).elim
  markup head := by
    have first : p.raw.head? = some '<' := by
      rw [rawOf_cons, List.head?_append, Option.or_eq_some_iff, List.head?_eq_none_iff] at head
      exact head.resolve_right fun none => h.valid.raw_ne_nil none.1
    rw [rawOf_cons, List.head?_append, h.successor.head first]
    rfl

theorem Ahead.written : textOf (writtenFrom settings o (tokensOf inScript line (p :: ps))) =
    renderedText primary false o.held ++
      ((((o.mainState.added o.table.isSome token).map Fragment.text).getD "") ++
        String.ofList (rawOf (p' :: qs))) := by
  rw [tokensOf, writtenFrom_passage h.leaves, textOf_append, h.sequel.written,
    renderedText_decide h.which, ← String.append_assoc, rendered_edit settings h.decides,
    renderedText_append, renderedText_share h.own, h.text, rawOf_cons, String.ofList_append]
  simp only [String.append_assoc]
  rfl

include options

/-- What the second run writes where it has read what was added. -/
theorem Ahead.again {o' : Outline}
    (echoes : Echoes primary (Table.dueAfter primary false o.held)
      (o.mainState.afterAdded (o.mainState.added o.table.isSome token)) o.table o') (line' : Nat) :
    textOf (writtenFrom settings o' (tokensOf inScript line' (p' :: qs))) =
      heldText o' ++ String.ofList (rawOf (p' :: qs)) := by
  obtain ⟨token', leaves', again, verbatim, raw⟩ := h.successor.leaves line'
  rw [← options] at again verbatim
  obtain ⟨echoes', text⟩ :=
    echoes.again rfl (dueAfter_held primary) h.decides again verbatim
  rw [tokensOf, writtenFrom_passage leaves', textOf_append, h.successor.scriptAfter,
    h.sequel.again _ _ (echoes'.decide h.which), ← String.append_assoc, text, raw, rawOf_cons,
    String.ofList_append, String.append_assoc]

/-- **The sequel of a passage** has one passage more, and one for what is added before it. -/
theorem Ahead.exists_sequel (outside : o.mainState.added o.table.isSome token ≠ none →
    inScript = false) :
    ∃ qs', Sequel settings primary xml inScript o line (p :: ps) qs' := by
  have written := h.written
  cases added : o.mainState.added o.table.isSome token with
  | none =>
    rw [added] at written
    refine ⟨p' :: qs, h.cut, h.stands, by simpa using written, fun o' line' echoes => ?_⟩
    refine h.again options ?_ line'
    rw [added]
    exact echoes
  | some fragment =>
    obtain rfl := outside (by simp [added])
    rw [added] at written
    have which : fragment = .mainStart ∨ fragment = .mainEnd := by
      simpa [added] using o.mainState.added_mem o.table.isSome token
    obtain ⟨m, valid, xmlAfter, scriptAfter, head, text, leaves⟩ := exists_mainPassage which xml
    refine ⟨m :: p' :: qs, ⟨valid _, ?_⟩, ⟨fun none => (h.raw_ne_nil none).elim, fun _ => ?_⟩, ?_,
      fun o' line' echoes => ?_⟩
    · rw [xmlAfter, scriptAfter]
      exact h.cut
    · rw [rawOf_cons, List.head?_append, head]
      rfl
    · rw [written, rawOf_cons m, String.ofList_append, text]
      rfl
    · obtain ⟨tag, only, main, raw⟩ := leaves line'
      obtain ⟨echoes', copied⟩ := echoes.added settings main
      rw [← added] at echoes'
      have leavesOne : m.Leaves false line' tag := ⟨[], only, nofun⟩
      rw [tokensOf, writtenFrom_passage leavesOne, textOf_append, scriptAfter,
        h.again options echoes', ← String.append_assoc, copied, rawOf_cons m, String.ofList_append,
        raw, text, String.append_assoc]

end Ahead

theorem exists_own_share (o : Outline) (options : Options) (report : token.isReport = false)
    (text : token.raw ≠ "") : ∃ e, o.ownEntry options token = some e ∧
      (o.share options token).own = some e := by
  cases own : o.ownEntry options token with
  | none => exact nomatch report.symm.trans (ownEntry_eq_none own)
  | some e =>
    have shown : e.fragment.text ≠ "" := fun empty => text ((isPlain_ownEntry own).raw_eq_empty empty)
    exact ⟨e, rfl, by simp [Outline.share, own, Option.filter, shown]⟩

/-- **What a run writes for passages is passages** that a second run leaves as they are. -/
theorem exists_sequel (options : settings.options = {}) : ∀ {ps : List Passage} {xml inScript : Bool}
    {o : Outline} {line : Nat}, Cut xml inScript ps → ScriptQuiet inScript o →
    (∀ tag, .startTag tag ∈ tokensOf inScript line ps → tag.IsTidy) →
    ∃ primary qs, Sequel settings primary xml inScript o line ps qs
  | [], xml, inScript, o, line, _, _, _ => by
    obtain ⟨primary, sequel⟩ := exists_sequel_nil settings xml inScript o line
    exact ⟨primary, [], sequel⟩
  | p :: ps, xml, inScript, o, line, ⟨valid, cut⟩, quiet, tidy => by
    obtain ⟨token, leaves, report, raw⟩ := valid.exists_leaves line
    have text : token.raw ≠ "" := by
      rw [raw]
      exact fun empty => valid.raw_ne_nil (String.ofList_eq_empty_iff.mp empty)
    obtain ⟨e, own, share⟩ := exists_own_share o settings.options report text
    obtain ⟨later, qs, sequel⟩ := exists_sequel options cut (quiet.edit settings valid leaves)
      fun tag mem => tidy tag (List.mem_append_right _ mem)
    obtain ⟨primary, decides, which⟩ := exists_decides_with o settings token later
    have tidyHere : ∀ tag, token = .startTag tag → tag.IsTidy := by
      rintro tag rfl
      obtain ⟨reports, split, -⟩ := leaves
      exact tidy tag (List.mem_append_left _ (by simp [split]))
    obtain ⟨p', successor, written⟩ := exists_successor primary
      (Table.dueAfter primary false o.held) valid tidyHere leaves (options ▸ own)
    have ahead : Ahead settings primary later xml inScript o line token e p p' ps qs :=
      ⟨valid, leaves, share, decides, which, successor, written, sequel⟩
    obtain ⟨qs', sequel'⟩ := ahead.exists_sequel options (quiet.outside valid leaves)
    exact ⟨primary, qs', sequel'⟩

/-! ### Documents -/

theorem echoes_start (primary : Option Nat) : Echoes primary false ({} : Outline).mainState none {} :=
  ⟨rfl, trivial⟩

/-- **A mended page is left as it is** when it is mended again. -/
theorem mend_mend {settings : Settings} (strict : settings.strict = false)
    (options : settings.options = {}) (xml : Bool) (html : String)
    (tidy : ∀ tag, .startTag tag ∈ documentTokens xml html → tag.IsTidy) :
    (mend settings xml (.whole (mend settings xml (.whole html)).text)).text =
      (mend settings xml (.whole html)).text := by
  obtain ⟨ps, cut, raw⟩ := exists_cut xml false html.toList
  obtain rfl : html = String.ofList (rawOf ps) := by rw [raw, String.ofList_toList]
  have text (ps : List Passage) (cut : Cut xml false ps) :
      (mend settings xml (.whole (String.ofList (rawOf ps)))).text =
        textOf (writtenFrom settings {} (tokensOf false 1 ps)) := by
    rw [(documentTokens_spec settings xml _).2, text_editAll strict, (documentTokens_of_cut cut).1]
  rw [(documentTokens_of_cut cut).1] at tidy
  obtain ⟨primary, qs, sequel⟩ := exists_sequel options cut (o := {}) (fun h => nomatch h) tidy
  have first : (mend settings xml (.whole (String.ofList (rawOf ps)))).text =
      String.ofList (rawOf qs) := by
    rw [text ps cut, sequel.written]
    exact String.empty_append
  rw [first, text qs sequel.cut, sequel.again {} 1 (echoes_start primary)]
  exact String.empty_append

theorem mend_mend_text :
    ({} : Settings).strict = false ∧ ({} : Settings).options = {} ∧
      (∀ tag, .startTag tag ∈ documentTokens false "<body>a" → tag.IsTidy) ∧
      (mend {} false (.whole (mend {} false (.whole "<body>a")).text)).text =
        (mend {} false (.whole "<body>a")).text := by
  have tokens : documentTokens false "<body>a" =
      [.startTag { name := "body", line := some 1, raw := "<body>" }, .text "a" (some 1) "a",
        .endOfInput (some 1) ""] := by decide +kernel
  have tidy : ∀ tag, .startTag tag ∈ documentTokens false "<body>a" → tag.IsTidy := by
    intro tag mem
    rw [tokens] at mem
    obtain rfl : tag = { name := "body", line := some 1, raw := "<body>" } := by simpa using mem
    refine ⟨.ofStart false "body" .empty, false, WrittenTag.valid_ofStart ?_ ?_, ?_, ?_⟩
    · decide +kernel
    · exact fun _ none => nomatch none
    · decide
    · exact fun _ none => nomatch none
  exact ⟨rfl, rfl, tidy, mend_mend rfl rfl false _ tidy⟩

end HtmlMend.Page
