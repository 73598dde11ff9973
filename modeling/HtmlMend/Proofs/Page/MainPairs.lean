import HtmlMend.Proofs.Page.Again
import HtmlMend.Proofs.Page.MainContent
import Mathlib.Data.List.Chain

/-! # Pages: pairs of `main` tags

The end tag of an added `main` element comes right after the start tag, as far as such tags go. So
the tags come in pairs exactly if all main content that begins comes to an end (`Ends`): a
sectioning element or the end of the body comes after it, and before that main content does not
begin again, which it does after the start of another body (`mend_arePaired_iff`). The end of the
input does not end main content (`mend_not_arePaired`). -/

namespace HtmlMend.Output

/-- Whether the fragment is a tag of an added `main` element. -/
def Fragment.isMainTag : Fragment → Bool
  | .mainStart | .mainEnd => true
  | _ => false

end HtmlMend.Output

namespace HtmlMend.Page

open Markup Output

/-- The tags of `main` elements that are added, in the order in which they are written. -/
def Report.mainTags (r : Report) : List Fragment := r.written.toList.filter Fragment.isMainTag

/-- Whether the tags come in pairs: each start tag is followed by one end tag before the next start
tag and before the end, and there is no other end tag. -/
def arePaired : List Fragment → Bool
  | [] => true
  | .mainStart :: .mainEnd :: rest => arePaired rest
  | _ => false

/-! ### Where main content comes to an end -/

/-- Whether the page lacks a `main` element after a token. -/
def lackStep (lacks : Bool) : Token → Bool
  | .startTag tag => if tag.name = "body" then true else if tag.name = "main" then false else lacks
  | _ => lacks

/-- Main content begins again among tokens that come after `before`: at one that it can begin with,
if the page lacks a `main` element there. -/
def BeginsAgain (lacks : Bool) (before tokens : List Token) : Prop :=
  ∃ front token back, tokens = front ++ token :: back ∧ front.foldl lackStep lacks = true ∧
    BeginsMain (before ++ front) token

/-- Main content comes to an end in the tokens after `before`, and does not begin again before. -/
def Ends (lacks : Bool) (before tokens : List Token) : Prop :=
  ∃ inner closer outer, tokens = inner ++ closer :: outer ∧ (∀ x ∈ inner, ¬EndsMain x) ∧
    EndsMain closer ∧ ¬BeginsAgain lacks before inner

/-- Main content begins at a token after `before`: a `main` element is added there. -/
def StartsMain (settings : Settings) (before : List Token) (token : Token) : Prop :=
  ((outlineFrom settings {} before).share settings.options token).added = some .mainStart

section Ends
variable {lacks : Bool} {before rest : List Token} {token : Token}

theorem beginsAgain_cons : BeginsAgain lacks before (token :: rest) ↔
    lacks = true ∧ BeginsMain before token ∨
      BeginsAgain (lackStep lacks token) (before ++ [token]) rest := by
  constructor
  · rintro ⟨front, x, back, split, lack, begins⟩
    cases front with
    | nil =>
      obtain ⟨rfl, -⟩ := List.cons.inj split
      exact .inl ⟨lack, by simpa using begins⟩
    | cons y front =>
      obtain ⟨rfl, tail⟩ := List.cons.inj split
      exact .inr ⟨front, x, back, tail, lack, by simpa using begins⟩
  · rintro (⟨lack, begins⟩ | ⟨front, x, back, rfl, lack, begins⟩)
    · exact ⟨[], token, rest, rfl, lack, by simpa using begins⟩
    · exact ⟨token :: front, x, back, rfl, lack, by simpa using begins⟩

theorem not_ends_nil : ¬Ends lacks before [] := by
  rintro ⟨inner, closer, outer, split, -⟩
  simp at split

theorem ends_cons_of_endsMain (ends : EndsMain token) : Ends lacks before (token :: rest) := by
  refine ⟨[], token, rest, rfl, by simp, ends, ?_⟩
  rintro ⟨front, x, back, split, -⟩
  simp at split

/-- After a token that does not end it, main content ends if it does not begin again with the token
and ends in the tokens after it. -/
theorem ends_cons (goesOn : ¬EndsMain token) : Ends lacks before (token :: rest) ↔
    ¬(lacks = true ∧ BeginsMain before token) ∧
      Ends (lackStep lacks token) (before ++ [token]) rest := by
  constructor
  · rintro ⟨inner, closer, outer, split, quiet, ends, once⟩
    cases inner with
    | nil =>
      obtain ⟨rfl, -⟩ := List.cons.inj split
      exact absurd ends goesOn
    | cons y inner =>
      obtain ⟨rfl, tail⟩ := List.cons.inj split
      rw [beginsAgain_cons, not_or] at once
      exact ⟨once.1, inner, closer, outer, tail, fun x hx => quiet x (by simp [hx]), ends, once.2⟩
  · rintro ⟨here, inner, closer, outer, rfl, quiet, ends, once⟩
    refine ⟨token :: inner, closer, outer, rfl, ?_, ends, ?_⟩
    · simpa using ⟨goesOn, quiet⟩
    · rw [beginsAgain_cons, not_or]
      exact ⟨here, once⟩

theorem ends_snoc (goesOn : ¬EndsMain token) :
    Ends lacks before (rest ++ [token]) ↔ Ends lacks before rest := by
  constructor
  · rintro ⟨inner, closer, outer, split, quiet, ends, once⟩
    rcases snoc_eq_append_cons.mp split with ⟨-, rfl, -⟩ | ⟨outer, -, rfl⟩
    · exact absurd ends goesOn
    · exact ⟨inner, closer, outer, rfl, quiet, ends, once⟩
  · rintro ⟨inner, closer, outer, rfl, quiet, ends, once⟩
    exact ⟨inner, closer, outer ++ [token], by simp, quiet, ends, once⟩

end Ends

/-! ### The states of an added element -/

namespace MainState

/-- The added `main` element is open, and main content may begin. -/
structure Going (f : MainState) : Prop where
  allowMain : f.allowMain = true
  mainOpen : f.mainOpen = true

variable {f : MainState} {token : Token} {before : List Token} {inTable : Bool}

/-- What is added is a start tag only where main content begins, and not at the start of a body, a
`main` element or a sectioning one. -/
theorem begun_of_added (h : f.added inTable token = some .mainStart) :
    f.begun = some .mainStart ∧ ∀ g : MainState, g.afterToken token = g := by
  have ended : f.ended ≠ some .mainStart := by
    unfold MainState.ended
    split <;> simp
  cases token with
  | startTag tag =>
    simp only [added] at h
    simp only [afterToken]
    cases role : Element.ofName tag.name <;> rw [role] at h <;>
      first | exact absurd h ended | cases h | exact ⟨h, fun _ => rfl⟩
  | endTag tag =>
    simp only [added] at h
    split at h <;> first | exact absurd h ended | cases h
  | text data line raw =>
    simp only [added] at h
    split at h
    · cases h
    · exact ⟨h, fun _ => rfl⟩
  | _ => cases h

theorem mainOpen_of_added (h : f.added inTable token = some .mainEnd) : f.mainOpen = true := by
  have begun : f.begun ≠ some .mainEnd := by
    unfold MainState.begun
    split <;> simp
  have ended (h : f.ended = some .mainEnd) : f.mainOpen = true := by
    unfold MainState.ended at h
    split at h
    · assumption
    · cases h
  unfold added beforeStart at h
  repeat' split at h
  all_goals first | exact ended h | exact absurd h begun | cases h

theorem mainOpen_afterToken (f : MainState) (token : Token) :
    (f.afterToken token).mainOpen = f.mainOpen := by
  unfold afterToken afterStart afterEnd
  repeat' split
  all_goals rfl

/-- An element that is not open is opened where it is added, or stays as it is. -/
theorem step_of_not_mainOpen (shut : f.mainOpen = false) (inTable : Bool) (token : Token) :
    f.added inTable token = none ∧ (f.after inTable token).mainOpen = false ∨
      f.added inTable token = some .mainStart ∧ (f.after inTable token).Going ∧
        (f.after inTable token).needMain = false := by
  rcases f.added_mem inTable token with added | added | added
  · refine .inl ⟨added, ?_⟩
    rw [after, added, mainOpen_afterToken]
    exact shut
  · obtain ⟨begun, same⟩ := begun_of_added added
    have allow : f.allowMain = true := by
      unfold MainState.begun at begun
      split at begun
      · simp_all
      · cases begun
    refine .inr ⟨added, ?_⟩
    rw [after, added, same]
    exact ⟨⟨allow, rfl⟩, rfl⟩
  · rw [mainOpen_of_added added] at shut
    cases shut

theorem Going.begun (h : f.Going) :
    MainState.begun f = if f.needMain then some .mainStart else none := by
  rw [MainState.begun, h.allowMain, Bool.true_and]

theorem Going.again (h : f.Going) (table : inTable = true ↔ tableDepth before ≠ 0)
    (lacks : f.needMain = true) (begins : BeginsMain before token) :
    f.added inTable token = some .mainStart := by
  have begun : MainState.begun f = some .mainStart := by rw [h.begun, lacks, if_pos rfl]
  cases token with
  | startTag tag =>
    obtain ⟨notBody, notMain, other⟩ := begins
    rw [Ne, ← Element.ofName_eq_body_iff] at notBody
    rw [Ne, ← Element.ofName_eq_main_iff] at notMain
    simp only [added]
    generalize Element.ofName tag.name = role at notBody notMain other
    cases role with
    | body | main => contradiction
    | sectioning | navigation => cases other
    | _ => exact begun
  | text data line raw =>
    obtain ⟨noTable, shown⟩ := begins
    have outside : inTable = false := by
      rw [← Bool.not_eq_true, table]
      exact fun h => h noTable
    simpa [added, outside, shown] using begun
  | _ => cases begins

theorem Going.adds_nothing (h : f.Going) (table : inTable = true ↔ tableDepth before ≠ 0)
    (goesOn : ¬EndsMain token) (quiet : f.needMain = true → ¬BeginsMain before token) :
    f.added inTable token = none := by
  have begun (begins : BeginsMain before token) : MainState.begun f = none := by
    rw [h.begun, if_neg fun lacks => quiet lacks begins]
  cases token with
  | startTag tag =>
    have other : (Element.ofName tag.name).isSectioning ≠ true := goesOn
    simp only [added]
    cases role : Element.ofName tag.name with
    | sectioning | navigation => simp [role, Element.isSectioning] at other
    | body | main => rfl
    | _ =>
      refine begun ⟨mt Element.ofName_eq_body_iff.mpr ?_, mt Element.ofName_eq_main_iff.mpr ?_, ?_⟩
      all_goals simp [role, Element.isSectioning]
  | endTag tag =>
    have notBody : Element.ofName tag.name ≠ .body := mt Element.ofName_eq_body_iff.mp goesOn
    simp only [added, if_neg notBody]
  | text data line raw =>
    simp only [added]
    split
    · rfl
    · next shown =>
      simp only [Bool.or_eq_true, not_or, Bool.not_eq_true] at shown
      refine begun ⟨?_, shown.2⟩
      have := mt table.mpr (by simp [shown.1])
      omega
  | _ => rfl

theorem Going.stays (h : f.Going) (goesOn : ¬EndsMain token) :
    (f.afterToken token).Going ∧ (f.afterToken token).needMain = lackStep f.needMain token := by
  cases token with
  | startTag tag =>
    have other : (Element.ofName tag.name).isSectioning ≠ true := goesOn
    have body : Element.ofName tag.name = .body ↔ _ := Element.ofName_eq_body_iff
    have main : Element.ofName tag.name = .main ↔ _ := Element.ofName_eq_main_iff
    simp only [afterToken, lackStep, ← body, ← main]
    generalize Element.ofName tag.name = role at other
    cases role with
    | sectioning | navigation => contradiction
    | body => exact ⟨⟨rfl, h.mainOpen⟩, rfl⟩
    | main => exact ⟨⟨h.allowMain, h.mainOpen⟩, rfl⟩
    | _ => exact ⟨h, rfl⟩
  | endTag tag =>
    have notBody : Element.ofName tag.name ≠ .body := mt Element.ofName_eq_body_iff.mp goesOn
    simp only [afterToken]
    generalize Element.ofName tag.name = role at notBody
    cases role with
    | body => contradiction
    | sectioning | navigation => exact ⟨⟨by simp [afterEnd, h.allowMain], h.mainOpen⟩, rfl⟩
    | _ => exact ⟨h, rfl⟩
  | _ => exact ⟨h, rfl⟩

/-- **An element that is open** stays open where main content neither ends nor begins again. -/
theorem Going.step (h : f.Going) (table : inTable = true ↔ tableDepth before ≠ 0)
    (goesOn : ¬EndsMain token) (quiet : f.needMain = true → ¬BeginsMain before token) :
    f.added inTable token = none ∧ (f.after inTable token).Going ∧
      (f.after inTable token).needMain = lackStep f.needMain token := by
  have none := h.adds_nothing table goesOn quiet
  refine ⟨none, ?_⟩
  rw [after, none, afterAdded_none]
  exact h.stays goesOn

theorem Going.stop (h : f.Going) (inTable : Bool) (ends : EndsMain token) :
    f.added inTable token = some .mainEnd ∧ (f.after inTable token).mainOpen = false := by
  have ended : MainState.ended f = some .mainEnd := by simp [MainState.ended, h.mainOpen]
  have added : f.added inTable token = some .mainEnd := by
    cases token with
    | startTag tag =>
      have sectioning : (Element.ofName tag.name).isSectioning = true := ends
      simp only [MainState.added]
      generalize Element.ofName tag.name = role at sectioning
      cases role with
      | sectioning | navigation => exact ended
      | _ => cases sectioning
    | endTag tag =>
      have role := Element.ofName_eq_body_iff.mpr ends
      simpa [MainState.added, role] using ended
    | _ => cases ends
  refine ⟨added, ?_⟩
  rw [after, added, mainOpen_afterToken]
  rfl

end MainState

/-! ### Runs -/

variable {settings : Settings}

/-- The tags of `main` elements that are added before tokens that come in an outline. -/
def tagsFrom (settings : Settings) (o : Outline) (tokens : List Token) : List Fragment :=
  (addedFrom settings o tokens).filterMap id

/-- Main content ends wherever it begins among tokens that come in an outline. -/
def EachEnds (settings : Settings) (o : Outline) (before tokens : List Token) : Prop :=
  ∀ mid token after, tokens = mid ++ token :: after →
    ((outlineFrom settings o mid).share settings.options token).added = some .mainStart →
    Ends false (before ++ mid ++ [token]) after

theorem tagsFrom_cons (o : Outline) (token : Token) (rest : List Token) :
    tagsFrom settings o (token :: rest) = (o.mainState.added o.table.isSome token).toList ++
      tagsFrom settings (o.edit settings token).outline rest := by
  rw [tagsFrom, addedFrom_cons]
  cases o.mainState.added o.table.isSome token <;> rfl

theorem eachEnds_cons {o : Outline} {before rest : List Token} {token : Token} :
    EachEnds settings o before (token :: rest) ↔
      (o.mainState.added o.table.isSome token = some .mainStart →
        Ends false (before ++ [token]) rest) ∧
      EachEnds settings (o.edit settings token).outline (before ++ [token]) rest := by
  constructor
  · intro each
    refine ⟨fun starts => by simpa using each [] token rest rfl starts, ?_⟩
    rintro mid x after rfl starts
    simpa using each (token :: mid) x after rfl starts
  · rintro ⟨here, each⟩ mid x after split starts
    cases mid with
    | nil =>
      obtain ⟨rfl, rfl⟩ := List.cons.inj split
      simpa using here starts
    | cons y mid =>
      obtain ⟨rfl, tail⟩ := List.cons.inj split
      simpa using each mid x after tail starts

/-- **The tags that are added come in pairs** exactly if main content ends wherever it begins; while
an element is open, its start tag comes before them. -/
theorem arePaired_tagsFrom : ∀ {tokens : List Token} {o : Outline} {before : List Token},
    Tracks o before → (∀ x ∈ tokens, x.isEnd = false) →
    (o.mainState.mainOpen = false →
      (arePaired (tagsFrom settings o tokens) = true ↔ EachEnds settings o before tokens)) ∧
    (o.mainState.Going →
      (arePaired (.mainStart :: tagsFrom settings o tokens) = true ↔
        Ends o.mainState.needMain before tokens ∧ EachEnds settings o before tokens))
  | [], o, before, _, _ => by
    refine ⟨fun _ => ⟨fun _ mid token after split => by simp at split, fun _ => rfl⟩, fun _ => ?_⟩
    exact ⟨fun paired => (by cases paired), fun ends => absurd ends.1 not_ends_nil⟩
  | token :: rest, o, before, tracks, inner => by
    obtain ⟨shutRest, goingRest⟩ := arePaired_tagsFrom
      (tracks.edit settings (inner token (by simp))) fun x hx => inner x (List.mem_cons_of_mem token hx)
    rw [Outline.mainState_edit] at shutRest goingRest
    rw [tagsFrom_cons, eachEnds_cons]
    refine ⟨fun shut => ?_, fun going => ?_⟩
    · rcases MainState.step_of_not_mainOpen shut o.table.isSome token with
        ⟨added, stays⟩ | ⟨added, going, need⟩
      · rw [added]
        simpa using shutRest stays
      · rw [added, ← need]
        simpa using goingRest going
    · by_cases ends : EndsMain token
      · obtain ⟨added, stays⟩ := going.stop o.table.isSome ends
        rw [added]
        simpa [ends_cons_of_endsMain ends, arePaired] using shutRest stays
      rw [ends_cons ends]
      by_cases again : o.mainState.needMain = true ∧ BeginsMain before token
      · rw [going.again tracks.isSome_iff again.1 again.2]
        simp [arePaired, again]
      · obtain ⟨added, stays, lacks⟩ := going.step tracks.isSome_iff ends
          fun lacks begins => again ⟨lacks, begins⟩
        rw [added, ← lacks]
        simpa [again] using goingRest stays

/-- The tag that was added last, if an element is open or not. -/
def lastTag (mainOpen : Bool) : Fragment := if mainOpen then .mainStart else .mainEnd

/-- **An end tag is added only after a start tag.** -/
theorem isChain_tagsFrom : ∀ (tokens : List Token) (o : Outline),
    List.IsChain (fun a b => b = .mainEnd → a = .mainStart)
      (lastTag o.mainOpen :: tagsFrom settings o tokens)
  | [], o => .singleton _
  | token :: rest, o => by
    have chain := isChain_tagsFrom rest (o.edit settings token).outline
    have after : (o.edit settings token).outline.mainOpen =
        (o.mainState.afterAdded (o.mainState.added o.table.isSome token)).mainOpen := by
      have state := congrArg MainState.mainOpen (o.mainState_edit settings token)
      rwa [MainState.after, MainState.mainOpen_afterToken] at state
    rw [after] at chain
    rw [tagsFrom_cons]
    rcases o.mainState.added_mem o.table.isSome token with added | added | added <;>
      rw [added] at chain ⊢
    · exact chain
    · exact .cons_cons (by simp) chain
    · have isOpen : o.mainOpen = true := MainState.mainOpen_of_added added
      exact .cons_cons (fun _ => by rw [isOpen]; rfl) chain

/-- Each end tag that is added comes right after a start tag, if no element is open before. -/
theorem getLast?_of_tagsFrom {o : Outline} (shut : o.mainOpen = false) {tokens : List Token}
    {front back : List Fragment} (split : tagsFrom settings o tokens = front ++ .mainEnd :: back) :
    front.getLast? = some .mainStart := by
  have chain : List.IsChain _ (lastTag o.mainOpen :: tagsFrom settings o tokens) :=
    isChain_tagsFrom tokens o
  rw [shut, split, ← List.cons_append, List.isChain_append] at chain
  obtain ⟨-, -, last⟩ := chain
  rcases List.eq_nil_or_concat front with rfl | ⟨init, tag, rfl⟩
  · cases last (lastTag false) (by simp) .mainEnd (by simp) rfl
  · have := last tag (by simp [List.getLast?_cons]) .mainEnd (by simp) rfl
    simp [this]

/-! ### What is written -/

/-- The entries with tags of an added element are not those of cells. -/
def PlainTags (entries : List Entry) : Prop :=
  ∀ e ∈ entries, e.fragment.isMainTag = true → e.column = none ∧ e.closes = none

theorem isMainTag_promote {primary : Option Nat} {due : Bool} {e : Entry}
    (plain : e.fragment.isMainTag = true → e.column = none ∧ e.closes = none) :
    [Table.promote primary due e].filter Fragment.isMainTag =
      [e.fragment].filter Fragment.isMainTag := by
  cases tag : e.fragment.isMainTag with
  | true => rw [Table.promote_of_plain primary due (plain tag).1 (plain tag).2]
  | false =>
    have promoted : (Table.promote primary due e).isMainTag = false := by
      unfold Table.promote
      split
      · rfl
      · split
        · rfl
        · exact tag
    simp [tag, promoted]

theorem filter_renderSimple {primary : Option Nat} : ∀ {entries : List Entry} {due : Bool},
    PlainTags entries → (Table.renderSimple primary due entries).filter Fragment.isMainTag =
      (entries.map Entry.fragment).filter Fragment.isMainTag
  | [], _, _ => rfl
  | e :: rest, due, plain => by
    rw [Table.renderSimple_cons, ← List.singleton_append, List.filter_append,
      isMainTag_promote (plain e (by simp)),
      filter_renderSimple fun x mem => plain x (List.mem_cons_of_mem e mem), ← List.filter_append]
    rfl

/-- The tags that the open table holds. -/
def heldTags (o : Outline) : List Fragment := (o.held.map Entry.fragment).filter Fragment.isMainTag

theorem plainTags_share (o : Outline) (options : Options) (token : Token) :
    PlainTags (o.share options token).entries := by
  intro e mem tag
  rcases List.mem_append.mp mem with mem | mem
  · obtain ⟨fragment, -, rfl⟩ : ∃ fragment, _ ∧ ({ fragment } : Entry) = e := by
      simpa [addedEntries] using mem
    exact ⟨rfl, rfl⟩
  · -- The own fragment of a token is copied or edited.
    have plain := isPlain_ownEntry (own_share (Option.mem_toList.mp mem))
    generalize e.fragment = f at tag plain
    cases plain <;> cases tag

/-- The tag that is added before a token is the only one among its entries. -/
theorem filter_share (o : Outline) (options : Options) (token : Token) :
    ((o.share options token).entries.map Entry.fragment).filter Fragment.isMainTag =
      (o.mainState.added o.table.isSome token).toList := by
  have own : ((o.share options token).own.toList.map Entry.fragment).filter Fragment.isMainTag =
      [] := by
    cases own : (o.share options token).own with
    | none => rfl
    | some e =>
      have plain := isPlain_ownEntry (own_share own)
      simp only [Option.toList_some, List.map_cons, List.map_nil]
      generalize e.fragment = f at plain
      cases plain <;> rfl
  rw [Share.entries, List.map_append, List.filter_append, own, List.append_nil]
  change ((addedEntries (o.mainState.added o.table.isSome token)).map _).filter _ = _
  rcases o.mainState.added_mem o.table.isSome token with added | added | added <;> rw [added] <;> rfl

/-- Tags are not empty, so that a table writes those of its entries. -/
theorem filter_render {t : Table} (plain : PlainTags t.entries.toList) :
    (t.render.filter (·.text ≠ "")).filter Fragment.isMainTag =
      (t.entries.toList.map Entry.fragment).filter Fragment.isMainTag := by
  have shown : ∀ f : Fragment, (f.isMainTag && decide (f.text ≠ "")) = f.isMainTag := by
    intro f
    cases f with
    | mainStart | mainEnd => decide
    | _ => rfl
  rw [List.filter_filter]
  simp only [shown]
  rw [Table.render_eq_renderSimple, filter_renderSimple plain]

/-- **A step writes or holds the tag that is added before its token.** -/
theorem mainTags_edit {o : Outline} (plain : PlainTags o.held) (token : Token) :
    (o.edit settings token).written.filter Fragment.isMainTag ++
        heldTags (o.edit settings token).outline =
      heldTags o ++ (o.mainState.added o.table.isSome token).toList := by
  have share := filter_share o settings.options token
  obtain ⟨-, delivers⟩ := o.edit_spec settings token
  cases delivers with
  | written table after written =>
    have shut : o.table = none := by
      cases table' : o.table with
      | none => rfl
      | some t => simp [Outline.tableWith_of_some table'] at table
    simp [written, share, heldTags, Outline.held, after, shut]
  | held t table goesOn after written =>
    simp [written, ← share, heldTags, Outline.held, after, Outline.entries_tableWith table]
  | released t table closes after written =>
    have all : PlainTags (t.addEntries (o.share settings.options token).entries).entries.toList := by
      rw [Table.toList_addEntries, Outline.entries_tableWith table]
      exact fun e mem => (List.mem_append.mp mem).elim (plain e) (plainTags_share o _ token e)
    rw [written, filter_render all, Table.toList_addEntries, Outline.entries_tableWith table,
      List.map_append, List.filter_append, share]
    simp [heldTags, Outline.held, after]

/-- **A run writes or holds the tags that are added.** -/
theorem mainTags_run (settings : Settings) : ∀ (tokens : List Token) {o : Outline},
    PlainTags o.held → (writtenFrom settings o tokens).filter Fragment.isMainTag ++
        heldTags (outlineFrom settings o tokens) = heldTags o ++ tagsFrom settings o tokens
  | [], o, _ => by simp [writtenFrom, tagsFrom, addedFrom, sharesFrom]
  | token :: rest, o, plain => by
    have next : PlainTags (o.edit settings token).outline.held := by
      intro e mem
      rcases List.mem_append.mp (mem_held_edit mem) with mem | mem
      · exact plain e mem
      · exact plainTags_share o settings.options token e mem
    rw [writtenFrom, List.filter_append, List.append_assoc, outlineFrom_cons,
      mainTags_run settings rest next, ← List.append_assoc, mainTags_edit plain, tagsFrom_cons,
      List.append_assoc]

/-! ### Documents -/

theorem eachEnds_iff {body : List Token} {line : Option Int} {raw : String} :
    EachEnds settings {} [] body ↔
      ∀ before token after, body ++ [.endOfInput line raw] = before ++ token :: after →
        StartsMain settings before token → Ends false (before ++ [token]) after := by
  have goesOn : ¬EndsMain (.endOfInput line raw) := not_false
  constructor
  · intro each before token after split starts
    rcases snoc_eq_append_cons.mp split with ⟨-, rfl, -⟩ | ⟨after, rfl, rfl⟩
    · -- Nothing is added before the end of the input.
      cases starts
    · exact (ends_snoc goesOn).mpr (each before token after rfl starts)
  · rintro all mid token after rfl starts
    exact (ends_snoc goesOn).mp (all mid token _ (by simp) starts)

/-- The tags in a complete report on a document are those that are added before its tokens. -/
theorem mainTags_mend {xml : Bool} {html : String} {body : List Token} {line : Option Int}
    (tokens : documentTokens xml html = body ++ [.endOfInput line ""])
    (complete : (mend settings xml (.whole html)).ending = .complete) :
    (mend settings xml (.whole html)).mainTags = tagsFrom settings {} body := by
  have nothing : PlainTags ({} : Outline).held := fun e mem => nomatch mem
  have run := mainTags_run settings (body ++ [.endOfInput line ""]) nothing
  have closed : heldTags (outlineFrom settings {} (body ++ [.endOfInput line ""])) = [] := by
    have table := (outlineFrom settings {} body).table_edit_end settings line ""
    simp only [outlineFrom_append, outlineFrom_cons, outlineFrom_nil, heldTags, Outline.held, table]
    rfl
  have added : tagsFrom settings {} (body ++ [.endOfInput line ""]) = tagsFrom settings {} body := by
    rw [tagsFrom, addedFrom_append, List.filterMap_append]
    exact List.append_nil _
  rw [closed, List.append_nil, added] at run
  rw [Report.mainTags, written_mend complete, tokens]
  exact run

/-- **Tags of added `main` elements**: an end tag comes right after a start tag, and the tags come
in pairs exactly if main content ends wherever it begins. -/
theorem mend_arePaired_iff {xml : Bool} {html : String}
    (complete : (mend settings xml (.whole html)).ending = .complete) :
    (∀ front back, (mend settings xml (.whole html)).mainTags = front ++ .mainEnd :: back →
      front.getLast? = some .mainStart) ∧
    (arePaired (mend settings xml (.whole html)).mainTags = true ↔
      ∀ before token after, documentTokens xml html = before ++ token :: after →
        StartsMain settings before token → Ends false (before ++ [token]) after) := by
  obtain ⟨⟨body, line, tokens, inner⟩, -⟩ := documentTokens_spec settings xml html
  rw [mainTags_mend tokens complete, tokens]
  refine ⟨fun front back split => getLast?_of_tagsFrom rfl split, ?_⟩
  rw [(arePaired_tagsFrom tracks_nil inner).1 rfl]
  exact eachEnds_iff

theorem mend_arePaired_iff_text :
    (mend {} false (.whole "<body>a</body>")).ending = .complete ∧
      arePaired (mend {} false (.whole "<body>a</body>")).mainTags = true ∧
      ∀ before token after, documentTokens false "<body>a</body>" = before ++ token :: after →
        StartsMain {} before token → Ends false (before ++ [token]) after := by
  have complete : (mend {} false (.whole "<body>a</body>")).ending = .complete := by decide +kernel
  have paired : arePaired (mend {} false (.whole "<body>a</body>")).mainTags = true := by
    decide +kernel
  exact ⟨complete, paired, (mend_arePaired_iff complete).2.mp paired⟩

/-- At the end of the input no element is closed, and after the start of another body one is added
while one is open. -/
theorem mend_not_arePaired :
    (mend {} false (.whole "<body><p>a")).ending = .complete ∧
      arePaired (mend {} false (.whole "<body><p>a")).mainTags = false ∧
      (mend {} false (.whole "<body>a<body>b</body>")).ending = .complete ∧
      arePaired (mend {} false (.whole "<body>a<body>b</body>")).mainTags = false := by
  decide +kernel

end HtmlMend.Page
