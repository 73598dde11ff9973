import HtmlMend.Proofs.Markup.Cover
import HtmlMend.Proofs.Markup.Element
import HtmlMend.Proofs.Page.Run

/-! # Pages: pieces of the output

A piece is what one token leads to in the output: what is added before it, and its own fragment.
`IsPlainPiece` and `IsPromotedPiece` say which pieces a token may have. The own fragment of a share
is plain (`isPlainPiece_share`), and a simple table is rendered share by share, each as it is or
promoted (`renderSimple_shares`). -/

namespace HtmlMend.Page

open Markup Output

/-- What one token leads to in the output. -/
structure Piece where
  added : Option Fragment := none
  own : Option Fragment := none

/-- The fragments of a piece. -/
def Piece.fragments (p : Piece) : List Fragment := p.added.toList ++ p.own.toList

/-- The piece of a share that is not promoted. -/
def Share.piece (s : Share) : Piece := ⟨s.added, s.own.map Entry.fragment⟩

/-- The own fragment of a token that is not promoted: its raw text, unless a rule changes it. The
start tag of the document is written anew; a text is put into that of the name of a generator and
that of the table of contents, and nothing is taken out. -/
inductive IsPlain (options : Options) : Token → Fragment → Prop
  | copied (token : Token) (other : ∀ tag, token = .startTag tag → tag.name ≠ "html") :
    IsPlain options token (.copied token.raw)
  | document (tag : StartTag) (name : tag.name = "html") :
    IsPlain options (.startTag tag)
      (.edited (writeStartTag false "html" (.ofList [("lang", some options.lang)])))
  | inserted (tag : StartTag) (front more back : String) (raw : tag.raw = front ++ back)
    (which : (tag.name = "meta" ∧ tag.attrs.get? "name" = some (some "generator") ∧
        more = options.suffix) ∨
      (tag.name = "nav" ∧ tag.attrs.get? "id" = some (some options.contentsId) ∧
        more = writeAttribute false "title" (some options.contentsTitle))) :
    IsPlain options (.startTag tag) (.edited (front ++ more ++ back))

/-- The own fragment of a token that is promoted: the start tag of a data cell becomes that of a row
header, and so does the end tag. -/
inductive IsPromotion : Token → Fragment → Prop
  | start (tag : StartTag) (name : tag.name = "td") :
    IsPromotion (.startTag tag) (.headerStart (Table.headerAttrs tag.sourceAttrs))
  | stop (tag : EndTag) (name : tag.name = "td") : IsPromotion (.endTag tag) .headerEnd

/-- At most one tag of a `main` element is added before a token, and none before a report. Only a
report and a token without text have no fragment of their own. -/
structure IsPiece (token : Token) (p : Piece) : Prop where
  added : p.added = none ∨ p.added = some .mainStart ∨ p.added = some .mainEnd
  report : token.isReport = true → p.added = none ∧ p.own = none
  own_none : p.own = none → token.isReport = true ∨ token.raw = ""

/-- A piece of a token that is not promoted. -/
structure IsPlainPiece (options : Options) (token : Token) (p : Piece) : Prop extends
    IsPiece token p where
  own : ∀ f, p.own = some f → IsPlain options token f

/-- A piece of a token that is promoted. -/
structure IsPromotedPiece (token : Token) (p : Piece) : Prop extends IsPiece token p where
  own : ∃ f, p.own = some f ∧ IsPromotion token f

/-! ### Shares -/

theorem insertAt_split (raw : String) (offset : Nat) (more : String) :
    ∃ front back, raw = front ++ back ∧ Text.insertAt raw offset more = front ++ more ++ back := by
  refine ⟨String.ofList (raw.toList.take offset), String.ofList (raw.toList.drop offset), ?_, ?_⟩
  · rw [← String.ofList_append, List.take_append_drop, String.ofList_toList]
  · simp [Text.insertAt, String.append_assoc]

theorem isPlain_startTag (options : Options) (tag : StartTag) :
    IsPlain options (.startTag tag) (options.startTag (Element.ofName tag.name) tag) := by
  have copied (h : Element.ofName tag.name ≠ .html) :
      IsPlain options (.startTag tag) (.copied tag.raw) :=
    .copied (.startTag tag) fun t e => by
      cases e
      rintro name
      rw [name] at h
      exact h (by decide)
  cases role : Element.ofName tag.name with
  | html =>
    exact .document tag (Element.ofName_eq_html_iff.mp role)
  | metadata =>
    have name := Element.ofName_eq_metadata_iff.mp role
    have plain := copied (by simp [role])
    simp only [Options.startTag, Options.generatorTag]
    split
    · next content span generator _ _ =>
      split
      · exact plain
      · obtain ⟨front, back, raw, inserted⟩ := insertAt_split tag.raw span.stop options.suffix
        rw [inserted]
        exact .inserted tag front _ back raw (.inl ⟨name, generator, rfl⟩)
    · exact plain
  | navigation =>
    have name := Element.ofName_eq_navigation_iff.mp role
    have plain := copied (by simp [role])
    simp only [Options.startTag, Options.contentsTag]
    split
    · next contents =>
      split
      · exact plain
      · obtain ⟨front, back, raw, inserted⟩ := insertAt_split tag.raw
          (tag.raw.length - if tag.selfClosing then 2 else 1)
          (writeAttribute false "title" (some options.contentsTitle))
        rw [inserted]
        exact .inserted tag front _ back raw
          (.inr ⟨name, by simpa [Options.isContents] using contents, rfl⟩)
    · exact plain
  | _ => exact copied (by simp [role])

theorem IsPlain.raw_eq_empty {options : Options} {token : Token} {f : Fragment}
    (plain : IsPlain options token f) (empty : f.text = "") : token.raw = "" := by
  cases plain with
  | copied => exact empty
  | document => simp [Fragment.text, writeStartTag] at empty
  | inserted tag front more back raw =>
    have : front ++ more ++ back = "" := empty
    simp only [String.append_eq_empty_iff] at this
    simp [Token.raw, raw, this]

theorem isPlain_ownEntry {o : Outline} {options : Options} {token : Token} {e : Entry}
    (h : o.ownEntry options token = some e) : IsPlain options token e.fragment := by
  cases token with
  | startTag tag =>
    obtain rfl := Option.some.inj h
    rw [Outline.fragment_startEntry]
    exact isPlain_startTag options tag
  | malformed => cases h
  | _ =>
    obtain rfl := Option.some.inj h
    exact .copied _ fun _ e => nomatch e

theorem ownEntry_eq_none {o : Outline} {options : Options} : ∀ {token : Token},
    o.ownEntry options token = none → token.isReport = true
  | .malformed _, _ => rfl

theorem own_share {o : Outline} {options : Options} {token : Token} {e : Entry}
    (h : (o.share options token).own = some e) : o.ownEntry options token = some e :=
  (Option.filter_eq_some_iff.mp h).1

theorem added_report (f : MainState) (inTable : Bool) : ∀ {token : Token}, token.isReport = true →
    f.added inTable token = none
  | .malformed _, _ => rfl

variable {o : Outline} {options : Options} {token : Token}

/-- What a share becomes, whatever becomes of its own fragment. -/
theorem isPiece_share (change : Entry → Fragment) :
    IsPiece token ⟨(o.share options token).added, (o.share options token).own.map change⟩ where
  added := o.mainState.added_mem o.table.isSome token
  report report := by
    refine ⟨added_report _ _ report, ?_⟩
    cases token with
    | malformed => rfl
    | _ => cases report
  own_none none := by
    cases own : o.ownEntry options token with
    | none => exact .inl (ownEntry_eq_none own)
    | some e =>
      have empty : e.fragment.text = "" := by
        simpa [Outline.share, own, Option.filter] using none
      exact .inr ((isPlain_ownEntry own).raw_eq_empty empty)

/-- **The piece of a share is plain.** -/
theorem isPlainPiece_share : IsPlainPiece options token (o.share options token).piece where
  toIsPiece := isPiece_share Entry.fragment
  own f h := by
    obtain ⟨e, own, rfl⟩ := Option.map_eq_some_iff.mp h
    exact isPlain_ownEntry (own_share own)

theorem fragments_shares (shares : List Share) :
    (shares.flatMap Share.entries).map Entry.fragment =
      (shares.map Share.piece).flatMap Piece.fragments := by
  have share (s : Share) : s.entries.map Entry.fragment = s.piece.fragments := by
    obtain ⟨added, own⟩ := s
    cases added <;> cases own <;> rfl
  rw [List.map_flatMap, List.flatMap_map]
  simp only [share]

/-! ### Promoted shares -/

/-- The piece of a share in a simple table. -/
def Share.promoted (primary : Option Nat) (due : Bool) (s : Share) : Piece :=
  ⟨s.added, s.own.map (Table.promote primary due)⟩

/-- The pieces of shares in a simple table. -/
def promoteAll (primary : Option Nat) : Bool → List Share → List Piece
  | _, [] => []
  | due, s :: rest =>
    s.promoted primary due :: promoteAll primary (Table.dueAfter primary due s.entries) rest

/-- **A simple table is rendered share by share.** -/
theorem renderSimple_shares (primary : Option Nat) : ∀ (shares : List Share) (due : Bool),
    Table.renderSimple primary due (shares.flatMap Share.entries) =
      (promoteAll primary due shares).flatMap Piece.fragments
  | [], _ => rfl
  | s :: rest, due => by
    have own (due : Bool) (own : Option Entry) : Table.renderSimple primary due own.toList =
        (own.map (Table.promote primary due)).toList := by
      cases own with
      | none => rfl
      | some e => exact Table.renderSimple_cons primary due e []
    have share : Table.renderSimple primary due s.entries = (s.promoted primary due).fragments := by
      obtain ⟨added, entry⟩ := s
      cases added with
      | none => exact own due entry
      | some f =>
        have plain := Table.renderSimple_cons primary due { fragment := f } entry.toList
        rw [Table.promote_of_plain primary due rfl rfl, Table.dueNext_of_plain primary due rfl rfl rfl,
          own] at plain
        exact plain
    rw [List.flatMap_cons, Table.renderSimple_append, renderSimple_shares primary rest, promoteAll,
      List.flatMap_cons, share]

/-- The start tag of a data cell in an open table has a column, and the attributes as they are
written. -/
theorem ownEntry_column {e : Entry} (h : o.ownEntry options token = some e)
    (column : e.column ≠ none) :
    ∃ tag, token = .startTag tag ∧ tag.name = "td" ∧ e.attrs = some tag.sourceAttrs := by
  cases token with
  | startTag tag =>
    obtain rfl := Option.some.inj h
    unfold Outline.startEntry at column ⊢
    split at column
    · next kind t role table =>
      cases kind with
      | data => exact ⟨tag, rfl, Element.ofName_eq_cell_iff.mp role, rfl⟩
      | header => exact absurd rfl column
    · exact absurd rfl column
  | malformed => cases h
  | _ =>
    obtain rfl := Option.some.inj h
    exact absurd rfl column

theorem ownEntry_closes {e : Entry} (h : o.ownEntry options token = some e)
    (closes : e.closes = some .data) : ∃ tag, token = .endTag tag ∧ tag.name = "td" := by
  cases token with
  | endTag tag =>
    obtain rfl := Option.some.inj h
    simp only [cellKind?] at closes
    split at closes
    · next kind role =>
      obtain rfl := Option.some.inj closes
      exact ⟨tag, rfl, Element.ofName_eq_cell_iff.mp role⟩
    · cases closes
  | startTag tag =>
    obtain rfl := Option.some.inj h
    rw [Outline.closes_startEntry] at closes
    cases closes
  | malformed => cases h
  | _ =>
    obtain rfl := Option.some.inj h
    cases closes

/-- **In a simple table a share is as it is, or it is promoted.** -/
theorem promoted_share (primary : Option Nat) (due : Bool) :
    (o.share options token).promoted primary due = (o.share options token).piece ∨
      IsPromotedPiece token ((o.share options token).promoted primary due) := by
  have piece : IsPiece token ((o.share options token).promoted primary due) := isPiece_share _
  cases own : (o.share options token).own with
  | none => exact .inl (by simp [Share.promoted, Share.piece, own])
  | some e =>
    have entry := own_share own
    have promoted : ((o.share options token).promoted primary due).own =
        some (Table.promote primary due e) := congrArg (Option.map _) own
    by_cases start : Table.isPromoted primary e = true
    · have column : e.column ≠ none := by
        intro none
        simp [Table.isPromoted, none] at start
      obtain ⟨tag, rfl, name, attrs⟩ := ownEntry_column entry column
      refine .inr ⟨piece, _, promoted, ?_⟩
      rw [Table.promote, if_pos start, attrs]
      exact .start tag name
    by_cases stop : (due && e.closes = some .data) = true
    · have closes : e.closes = some .data := by simp at stop; exact stop.2
      obtain ⟨tag, rfl, name⟩ := ownEntry_closes entry closes
      refine .inr ⟨piece, _, promoted, ?_⟩
      rw [Table.promote, if_neg start, if_pos stop]
      exact .stop tag name
    · refine .inl ?_
      simp only [Share.promoted, Share.piece, own, Option.map_some]
      rw [Table.promote, if_neg start, if_neg stop]

end HtmlMend.Page
