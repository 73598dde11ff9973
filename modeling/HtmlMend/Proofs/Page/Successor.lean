import HtmlMend.Proofs.Markup.Passage
import HtmlMend.Proofs.Markup.Unique
import HtmlMend.Proofs.Page.Again
import HtmlMend.Proofs.Page.Rule
import HtmlMend.Proofs.Table.RowHeader

/-! # Pages: the passages of the output

What a run writes for a passage is a passage again (`exists_successor`), whether it is copied,
written anew or promoted. It stands in the place of that passage (`StandsIn`), and it leaves a token
too. -/

namespace HtmlMend

open Markup Output

variable {xml inScript : Bool}

namespace Markup

/-! ### Passages and their tokens -/

namespace Passage

/-- On a line, a passage leaves reports and one token. -/
def Leaves (inScript : Bool) (line : Nat) (p : Passage) (token : Token) : Prop :=
  ∃ reports, p.tokens inScript line = reports ++ [token] ∧ ∀ r ∈ reports, r.isReport = true

theorem leaves_text (inScript : Bool) (line : Nat) (opening : Opening) (chars : List Char) :
    (text opening chars).Leaves inScript line
      (.text (String.ofList (opening.shown ++ chars))
        (some (line + opening.raw.count '\n' : Nat)) (String.ofList (opening.raw ++ chars))) := by
  refine ⟨_, rfl, fun r mem => ?_⟩
  cases opening with
  | broken raw =>
    simp only [Opening.report?] at mem
    split at mem
    · simp at mem
    · obtain rfl := List.mem_singleton.mp mem
      rfl
  | _ => cases mem

theorem leaves_markup {line : Nat} {k : Construct} {raw : List Char} {token : Token}
    (h : k.token? line (String.ofList raw) = some token) :
    (markup k raw).Leaves inScript line token :=
  ⟨[], by simp [tokens, h], fun _ mem => nomatch mem⟩

/-- **A passage leaves a token** with its text. -/
theorem Valid.exists_leaves {rest : List Char} (line : Nat) : ∀ {p : Passage},
    p.Valid xml inScript rest →
    ∃ token, p.Leaves inScript line token ∧ token.isReport = false ∧ token.raw = String.ofList p.raw
  | .text opening chars, _ => ⟨_, leaves_text inScript line opening chars, rfl, rfl⟩
  | .markup k raw, valid => by
    cases k with
    | cdata | xmlDeclaration => cases valid.2
    | _ => exact ⟨_, leaves_markup rfl, rfl, rfl⟩

theorem Leaves.unique {line : Nat} {p : Passage} {token token' : Token}
    (h : p.Leaves inScript line token) (h' : p.Leaves inScript line token') : token' = token := by
  obtain ⟨reports, split, -⟩ := h
  obtain ⟨reports', split', -⟩ := h'
  exact List.singleton_inj.mp (List.append_inj_right' (split'.symm.trans split) rfl)

end Passage

/-- The passage of a written start tag. -/
def WrittenTag.passage (w : WrittenTag) : Passage := .markup w.construct w.raw

theorem WrittenTag.valid_passage {w : WrittenTag} (valid : w.Valid xml) (rest : List Char) :
    w.passage.Valid xml false rest :=
  ⟨w.completes valid, rfl⟩

theorem WrittenTag.leaves_passage (w : WrittenTag) (inScript : Bool) (line : Nat) :
    w.passage.Leaves inScript line (.startTag (w.startTag (some line))) :=
  Passage.leaves_markup rfl

/-- The passage of an end tag. -/
def endTagPassage (name : String) : Passage :=
  .markup (.endTag name) ('<' :: '/' :: (name.toList ++ ['>']))

theorem valid_endTagPassage {name : String} (isName : IsTagName name.toList)
    (lower : Text.lower name = name) (rest : List Char) :
    (endTagPassage name).Valid xml false rest := by
  have completes : Completes xml false _ _ :=
    completes_endTag isName allSpaces_nil (fun script => nomatch script)
  rw [String.ofList_toList, lower, List.append_nil] at completes
  exact ⟨completes, rfl⟩

end Markup

namespace Page

/-! ### What is written for a passage -/

/-- A passage of the second run in the place of one of the first, where that leaves a token. -/
structure Successor (primary : Option Nat) (due : Bool) (o : Outline) (xml inScript : Bool)
    (p p' : Passage) (token : Token) : Prop where
  valid : ∀ rest, p.Valid xml inScript rest → p'.Valid xml inScript rest
  xmlAfter : p'.xmlAfter xml = p.xmlAfter xml
  scriptAfter : p'.scriptAfter inScript = p.scriptAfter inScript
  head : p.raw.head? = some '<' → p'.raw.head? = some '<'
  leaves : ∀ line, ∃ token', p'.Leaves inScript line token' ∧
    Again {} primary due o token token' ∧ Verbatim {} token' ∧ token'.raw = String.ofList p'.raw

variable {primary : Option Nat} {due : Bool} {o : Outline} {p : Passage} {token : Token} {e : Entry}

theorem verbatim_startTag {tag : StartTag}
    (h : (({} : Options).startTag (Element.ofName tag.name) tag).text = tag.raw) :
    Verbatim {} (.startTag tag) := by
  intro o e own
  obtain rfl := Option.some.inj own
  rw [Outline.fragment_startEntry]
  exact h

/-- What is written for a start tag is a start tag. -/
theorem exists_startTag {w : WrittenTag} (valid : w.Valid xml) (tidy : w.IsTidy) (line : Option Int)
    (own : o.ownEntry {} (.startTag (w.startTag line)) = some e) :
    ∃ w' : WrittenTag, w'.Valid xml ∧ (w'.key = w.key ∨ w.key = "td" ∧ w'.key = "th") ∧
      (Table.promote primary due e).text = String.ofList w'.raw ∧ ∀ line',
        Again {} primary due o (.startTag (w.startTag line)) (.startTag (w'.startTag line')) ∧
          Verbatim {} (.startTag (w'.startTag line')) := by
  by_cases promoted : Table.isPromoted primary e = true
  · have column : e.column ≠ none := by
      intro none
      simp [Table.isPromoted, none] at promoted
    obtain ⟨tag, same, name, attrs⟩ := ownEntry_column own column
    obtain rfl := Token.startTag.inj same
    obtain ⟨w', valid', key, scope, text⟩ := Table.exists_headerTag line valid tidy
    refine ⟨w', valid', .inr ⟨name, key⟩, ?_, fun line' => ⟨.headerStart _ _ name key scope, ?_⟩⟩
    · rw [Table.promote, if_pos promoted, attrs]
      exact text
    · refine verbatim_startTag ?_
      change (({} : Options).startTag (Element.ofName w'.key) _).text = _
      rw [key]
      rfl
  · have plain : Table.isPromoted primary e = false := Bool.eq_false_iff.mpr promoted
    obtain ⟨w', retouched⟩ := exists_retouched valid tidy
    refine ⟨w', retouched.valid, .inl retouched.key, ?_, fun line' =>
      ⟨.alike (.startTag _ _ retouched.key fun kind role => ?_) fun e' own' => ?_, ?_⟩⟩
    · obtain rfl := Option.some.inj own
      rw [← retouched.written line, Table.promote, plain, Outline.closes_startEntry]
      simp only [Bool.false_eq_true, if_false, reduceCtorEq, decide_false, Bool.and_false,
        Outline.fragment_startEntry]
      rfl
    · rcases retouched.same with rfl | changed
      · rfl
      · change Element.ofName w.key = .cell kind at role
        rw [role] at changed
        simp at changed
    · rwa [← Option.some.inj (own.symm.trans own')]
    · refine verbatim_startTag ?_
      change (({} : Options).startTag (Element.ofName w'.key) _).text = _
      rw [retouched.key]
      exact retouched.stable line'

/-- The token is copied wherever it comes. -/
def IsCopied (token : Token) : Prop :=
  ∀ o : Outline, ∃ closes, o.ownEntry {} token = some { fragment := .copied token.raw, closes }

theorem IsCopied.plain (h : IsCopied token) (primary : Option Nat) (o : Outline) :
    ∀ e, o.ownEntry {} token = some e → Table.isPromoted primary e = false := by
  intro e own
  obtain ⟨closes, copied⟩ := h o
  obtain rfl := Option.some.inj (copied.symm.trans own)
  rfl

theorem IsCopied.verbatim (h : IsCopied token) : Verbatim {} token := by
  intro o e own
  obtain ⟨closes, copied⟩ := h o
  obtain rfl := Option.some.inj (copied.symm.trans own)
  rfl

theorem IsCopied.text_promote (h : IsCopied token) (own : o.ownEntry {} token = some e)
    (other : due = false ∨ e.closes ≠ some .data) :
    (Table.promote primary due e).text = token.raw := by
  have plain := h.plain primary o e own
  have stays : (due && e.closes = some .data) = false := by
    rcases other with rfl | other <;> simp [*]
  rw [Table.promote, plain, stays]
  exact h.verbatim o e own

theorem isCopied_endTag (tag : EndTag) : IsCopied (.endTag tag) := fun _ => ⟨_, rfl⟩

theorem isCopied_text {data : String} {line : Option Int} {raw : String} :
    IsCopied (.text data line raw) := fun _ => ⟨none, rfl⟩

theorem isCopied_comment {data : String} {line : Option Int} {raw : String} :
    IsCopied (.comment data line raw) := fun _ => ⟨none, rfl⟩

theorem isCopied_doctype {data : String} {line : Option Int} {raw : String} :
    IsCopied (.doctype data line raw) := fun _ => ⟨none, rfl⟩

/-- A passage whose text is copied stands in its own place. -/
theorem Successor.self (copied : IsCopied token)
    (alike : ∀ line, ∃ token', p.Leaves inScript line token' ∧
      token'.raw = String.ofList p.raw ∧ Alike token token' ∧ IsCopied token') :
    Successor primary due o xml inScript p p token where
  valid _ valid := valid
  xmlAfter := rfl
  scriptAfter := rfl
  head := id
  leaves line' := by
    obtain ⟨token', leaves, raw, alike, copied'⟩ := alike line'
    exact ⟨token', leaves, .alike alike (copied.plain primary o), copied'.verbatim, raw⟩

/-- What is written for an end tag is an end tag. -/
theorem exists_endTag {name : String} {raw : List Char} {line : Nat}
    (completes : Completes xml inScript raw (.endTag name))
    (script : inScript = true → name = "script")
    (own : o.ownEntry {} (.endTag ⟨name, some line, String.ofList raw⟩) = some e) :
    ∃ p', Successor primary due o xml inScript (.markup (.endTag name) raw) p'
        (.endTag ⟨name, some line, String.ofList raw⟩) ∧
      (Table.promote primary due e).text = String.ofList p'.raw := by
  by_cases ends : due = true ∧ e.closes = some .data
  · obtain ⟨isDue, closes⟩ := ends
    obtain ⟨tag, same, td⟩ := ownEntry_closes own closes
    obtain rfl := Token.endTag.inj same
    have td : name = "td" := td
    have outside : inScript = false := by
      refine Bool.eq_false_iff.mpr fun inside => ?_
      exact absurd (td.symm.trans (script inside)) (by decide)
    subst outside
    have valid (rest : List Char) : (endTagPassage "th").Valid xml false rest :=
      valid_endTagPassage (by decide +kernel) (by decide) rest
    refine ⟨endTagPassage "th", ⟨fun rest _ => valid rest, rfl, rfl, fun _ => rfl, fun line' =>
      ⟨_, Passage.leaves_markup rfl, .headerEnd _ _ td rfl isDue, (isCopied_endTag _).verbatim,
        rfl⟩⟩, ?_⟩
    rw [Table.promote, (isCopied_endTag _).plain primary o e own, isDue, closes]
    rfl
  · have other : due = false ∨ e.closes ≠ some .data := by
      cases due with
      | false => exact .inl rfl
      | true => exact .inr fun closes => ends ⟨rfl, closes⟩
    refine ⟨_, .self (isCopied_endTag _) fun line' => ⟨_, Passage.leaves_markup rfl, rfl,
      .endTag _ _ rfl, isCopied_endTag _⟩, ?_⟩
    exact (isCopied_endTag _).text_promote own other

/-- **What is written for a passage is a passage** in its place. -/
theorem exists_successor (primary : Option Nat) (due : Bool) {rest : List Char} {line : Nat}
    (valid : p.Valid xml inScript rest) (tidy : ∀ tag, token = .startTag tag → tag.IsTidy)
    (leaves : p.Leaves inScript line token) (own : o.ownEntry {} token = some e) :
    ∃ p', Successor primary due o xml inScript p p' token ∧
      (Table.promote primary due e).text = String.ofList p'.raw := by
  cases p with
  | text opening chars =>
    obtain rfl := (Passage.leaves_text inScript line opening chars).unique leaves
    refine ⟨_, .self isCopied_text fun line' => ⟨_, Passage.leaves_text inScript line' opening
      chars, rfl, .text .., isCopied_text⟩, ?_⟩
    exact isCopied_text.text_promote own (.inr (by cases own; simp))
  | markup k raw =>
    obtain ⟨completes, visible⟩ := valid
    cases completes.form with
    | startTag w valid script =>
      subst script
      obtain rfl := (w.leaves_passage false line).unique leaves
      obtain ⟨w', valid', key, text, again⟩ :=
        exists_startTag valid ((tidy _ rfl).of_valid valid) (some line) own
      refine ⟨w'.passage, ⟨fun rest _ => WrittenTag.valid_passage valid' rest, rfl, ?_,
        fun _ => rfl, fun line' => ⟨_, w'.leaves_passage false line', (again _).1, (again _).2,
          rfl⟩⟩, text⟩
      rcases key with key | ⟨key, key'⟩
      · simp [Passage.scriptAfter, WrittenTag.passage, WrittenTag.construct, Construct.scriptAfter,
          key]
      · simp [Passage.scriptAfter, WrittenTag.passage, WrittenTag.construct, Construct.scriptAfter,
          key, key']
    | endTag name sp isName spaces script =>
      obtain rfl := (Passage.leaves_markup rfl).unique leaves
      exact exists_endTag completes script own
    | comment body first script =>
      obtain rfl := (Passage.leaves_markup rfl).unique leaves
      refine ⟨_, .self isCopied_comment fun line' => ⟨_, Passage.leaves_markup rfl, rfl,
        .comment .., isCopied_comment⟩, ?_⟩
      exact isCopied_comment.text_promote own (.inr (by cases own; simp))
    | doctype text accepted first script =>
      obtain rfl := (Passage.leaves_markup rfl).unique leaves
      refine ⟨_, .self isCopied_doctype fun line' => ⟨_, Passage.leaves_markup rfl, rfl,
        .doctype .., isCopied_doctype⟩, ?_⟩
      exact isCopied_doctype.text_promote own (.inr (by cases own; simp))
    | cdata raw form script => cases visible
    | xmlDeclaration raw form script => cases visible

end Page

end HtmlMend
