import HtmlMend.Proofs.Page.Conservation
import HtmlMend.Proofs.Page.Depth

/-! # Pages: where a `main` element is added

In a document with one body that begins in no sectioning element, main content begins at the first
start tag or text after the start of the body that is in no sectioning element either, unless a
`main` element or the end of the body comes first (`BeginsAt`). There one start tag is added, and
before the next sectioning element or end of the body one end tag; nothing else is added
(`mend_main`). The depths that decide this are counted over the tokens (`depthOf`). -/

namespace HtmlMend.Page

open Markup Output

/-! ### Main content -/

/-- The start of a body. -/
def IsBodyStart : Token → Prop
  | .startTag tag => tag.name = "body"
  | _ => False

/-- A token that main content begins with if it is in no sectioning element: the start of any
element but a body, a `main` element, and a sectioning one, or text outside tables that is more than
spaces. -/
def BeginsMain (before : List Token) : Token → Prop
  | .startTag tag => tag.name ≠ "body" ∧ tag.name ≠ "main" ∧
    (Element.ofName tag.name).isSectioning = false
  | .text data _ _ => tableDepth before = 0 ∧ data.toList.all isSpace = false
  | _ => False

/-- A token after which no main content begins: the start of a `main` element or the end of a
body. -/
def ForbidsMain : Token → Prop
  | .startTag tag => tag.name = "main"
  | .endTag tag => tag.name = "body"
  | _ => False

/-- A token that main content ends before: the start of a sectioning element or the end of a
body. -/
def EndsMain : Token → Prop
  | .startTag tag => (Element.ofName tag.name).isSectioning = true
  | .endTag tag => tag.name = "body"
  | _ => False

/-- Main content may begin at a token in no sectioning element. -/
def MayBegin (before : List Token) (token : Token) : Prop :=
  sectionDepth before = 0 ∧ BeginsMain before token

/-- Main content begins at a token that comes after the start of a body and `mid`: it is the first
where it may, and nothing has forbidden it. -/
structure BeginsAt (before mid : List Token) (token : Token) : Prop where
  here : MayBegin (before ++ mid) token
  first : ∀ front x back, mid = front ++ x :: back → ¬MayBegin (before ++ front) x
  allowed : ∀ x ∈ mid, ¬ForbidsMain x

/-- Nothing is added before the tokens. -/
def nothing (tokens : List Token) : List (Option Fragment) := tokens.map fun _ => none

/-! ### The states of the main content -/

namespace MainState

/-- Nothing will be added. -/
structure Idle (f : MainState) : Prop where
  needMain : f.needMain = false
  mainOpen : f.mainOpen = false

/-- Main content will begin where it may, which is in no sectioning element. -/
structure Waiting (f : MainState) : Prop where
  needMain : f.needMain = true
  mainOpen : f.mainOpen = false
  allowMain : f.allowMain = decide (f.sectionDepth = 0)

/-- The added `main` element is open. -/
structure Within (f : MainState) : Prop where
  needMain : f.needMain = false
  mainOpen : f.mainOpen = true

variable {f : MainState} {token : Token}

theorem begun_of_needMain (h : f.needMain = false) : f.begun = none := by simp [begun, h]

theorem ended_of_mainOpen (h : f.mainOpen = false) : f.ended = none := by simp [ended, h]

theorem Idle.step (h : f.Idle) (inTable : Bool) (body : ¬IsBodyStart token) :
    f.added inTable token = none ∧ (f.after inTable token).Idle := by
  have none : f.added inTable token = none := by
    have begun := begun_of_needMain h.needMain
    have ended := ended_of_mainOpen h.mainOpen
    unfold added beforeStart
    repeat' split
    all_goals first | exact begun | exact ended | rfl
  refine ⟨none, ?_⟩
  rw [after, none, afterAdded_none]
  cases token with
  | startTag tag =>
    have role : Element.ofName tag.name ≠ .body := mt Element.ofName_eq_body_iff.mp body
    simp only [afterToken, afterStart]
    split
    · exact ⟨h.needMain, h.mainOpen⟩
    · exact ⟨h.needMain, h.mainOpen⟩
    · contradiction
    · exact ⟨rfl, h.mainOpen⟩
    · exact h
  | endTag tag =>
    simp only [afterToken, afterEnd]
    split
    · exact ⟨h.needMain, h.mainOpen⟩
    · exact ⟨h.needMain, h.mainOpen⟩
    · exact ⟨rfl, h.mainOpen⟩
    · exact h
  | _ => exact h

theorem Waiting.begun_of_ne (h : f.Waiting) (inside : f.sectionDepth ≠ 0) : f.begun = none := by
  simp [begun, h.allowMain, inside]

theorem Waiting.adds_nothing {before : List Token} {inTable : Bool} (h : f.Waiting)
    (table : inTable = true ↔ tableDepth before ≠ 0)
    (quiet : f.sectionDepth = 0 → ¬BeginsMain before token) : f.added inTable token = none := by
  have ended := ended_of_mainOpen h.mainOpen
  cases token with
  | startTag tag =>
    simp only [added]
    have begun (other : (Element.ofName tag.name).isSectioning = false)
        (notBody : Element.ofName tag.name ≠ .body) (notMain : Element.ofName tag.name ≠ .main) :
        f.begun = none :=
      h.begun_of_ne fun outside => quiet outside ⟨mt Element.ofName_eq_body_iff.mpr notBody,
        mt Element.ofName_eq_main_iff.mpr notMain, other⟩
    cases role : Element.ofName tag.name with
    | sectioning | navigation => exact ended
    | body | main => rfl
    | _ => exact begun (by rw [role]; rfl) (by simp [role]) (by simp [role])
  | endTag tag =>
    simp only [added]
    split <;> first | exact ended | rfl
  | text data line raw =>
    simp only [added]
    split
    · rfl
    · next shown =>
      simp only [Bool.or_eq_true, not_or, Bool.not_eq_true] at shown
      refine h.begun_of_ne fun outside => quiet outside ⟨?_, shown.2⟩
      have := mt table.mpr (by simp [shown.1])
      omega
  | _ => rfl

/-- A token that does not forbid main content keeps it waiting. -/
theorem Waiting.stays (h : f.Waiting) (body : ¬IsBodyStart token)
    (allowed : ¬ForbidsMain token) : (f.afterToken token).Waiting := by
  cases token with
  | startTag tag =>
    have notBody : Element.ofName tag.name ≠ .body := mt Element.ofName_eq_body_iff.mp body
    have notMain : Element.ofName tag.name ≠ .main := mt Element.ofName_eq_main_iff.mp allowed
    simp only [afterToken, afterStart]
    split
    · exact ⟨h.needMain, h.mainOpen, by simp⟩
    · exact ⟨h.needMain, h.mainOpen, by simp⟩
    · contradiction
    · contradiction
    · exact h
  | endTag tag =>
    have notBody : Element.ofName tag.name ≠ .body := mt Element.ofName_eq_body_iff.mp allowed
    have allow : (f.allowMain || decide (f.sectionDepth ≤ 1)) = decide (f.sectionDepth - 1 = 0) := by
      rw [h.allowMain]
      grind
    simp only [afterToken, afterEnd]
    split
    · exact ⟨h.needMain, h.mainOpen, allow⟩
    · exact ⟨h.needMain, h.mainOpen, allow⟩
    · contradiction
    · exact h
  | _ => exact h

/-- Main content keeps waiting where it does not begin. -/
theorem Waiting.step {before : List Token} {inTable : Bool} (h : f.Waiting)
    (table : inTable = true ↔ tableDepth before ≠ 0) (body : ¬IsBodyStart token)
    (allowed : ¬ForbidsMain token) (quiet : f.sectionDepth = 0 → ¬BeginsMain before token) :
    f.added inTable token = none ∧ (f.after inTable token).Waiting := by
  have none := h.adds_nothing table quiet
  refine ⟨none, ?_⟩
  rw [after, none, afterAdded_none]
  exact h.stays body allowed

theorem Waiting.begin {before : List Token} {inTable : Bool} (h : f.Waiting)
    (table : inTable = true ↔ tableDepth before ≠ 0) (outside : f.sectionDepth = 0)
    (begins : BeginsMain before token) :
    f.added inTable token = some .mainStart ∧ (f.after inTable token).Within := by
  have begun : f.begun = some .mainStart := by
    simp [begun, h.allowMain, outside, h.needMain]
  cases token with
  | startTag tag =>
    obtain ⟨notBody, notMain, other⟩ := begins
    rw [Ne, ← Element.ofName_eq_body_iff] at notBody
    rw [Ne, ← Element.ofName_eq_main_iff] at notMain
    simp only [after, added, afterToken]
    generalize Element.ofName tag.name = role at notBody notMain other
    cases role with
    | body | main => contradiction
    | sectioning | navigation => cases other
    | _ => exact ⟨begun, by simp only [beforeStart, begun]; exact ⟨rfl, rfl⟩⟩
  | text data line raw =>
    obtain ⟨noTable, shown⟩ := begins
    have open_ : inTable = false := by
      rw [← Bool.not_eq_true, table]
      exact fun h => h noTable
    simp only [after, added, afterToken, open_, shown, Bool.or_self, Bool.false_eq_true, if_false,
      begun]
    exact ⟨trivial, rfl, rfl⟩
  | _ => cases begins

theorem Waiting.forbidden (h : f.Waiting) (inTable : Bool) (forbids : ForbidsMain token) :
    f.added inTable token = none ∧ (f.after inTable token).Idle := by
  have ended := ended_of_mainOpen h.mainOpen
  cases token with
  | startTag tag =>
    have role := Element.ofName_eq_main_iff.mpr forbids
    simp only [after, added, beforeStart, afterToken, afterStart, role]
    exact ⟨trivial, rfl, h.mainOpen⟩
  | endTag tag =>
    have role := Element.ofName_eq_body_iff.mpr forbids
    simp only [after, added, ended, afterToken, afterEnd, role]
    exact ⟨rfl, rfl, h.mainOpen⟩
  | _ => cases forbids

theorem Within.step (h : f.Within) (inTable : Bool) (body : ¬IsBodyStart token)
    (goesOn : ¬EndsMain token) :
    f.added inTable token = none ∧ (f.after inTable token).Within := by
  have begun := begun_of_needMain h.needMain
  cases token with
  | startTag tag =>
    have notBody : Element.ofName tag.name ≠ .body := mt Element.ofName_eq_body_iff.mp body
    have other : (Element.ofName tag.name).isSectioning ≠ true := goesOn
    simp only [after, added, afterToken]
    generalize Element.ofName tag.name = role at notBody other
    cases role with
    | body | sectioning | navigation => contradiction
    | main => exact ⟨rfl, rfl, h.mainOpen⟩
    | _ => exact ⟨begun, by simp only [beforeStart, begun]; exact h⟩
  | endTag tag =>
    have notBody : Element.ofName tag.name ≠ .body := mt Element.ofName_eq_body_iff.mp goesOn
    simp only [after, added, if_neg notBody, afterToken, afterAdded_none]
    generalize Element.ofName tag.name = role at notBody
    cases role with
    | body => contradiction
    | sectioning | navigation => exact ⟨trivial, h.needMain, h.mainOpen⟩
    | _ => exact ⟨trivial, h⟩
  | text data line raw =>
    simp only [after, added, begun, ite_self]
    exact ⟨trivial, h⟩
  | _ => exact ⟨rfl, h⟩

theorem Within.stop (h : f.Within) (inTable : Bool) (ends : EndsMain token) :
    f.added inTable token = some .mainEnd ∧ (f.after inTable token).Idle := by
  have ended : f.ended = some .mainEnd := by simp [ended, h.mainOpen]
  cases token with
  | startTag tag =>
    have sectioning : (Element.ofName tag.name).isSectioning = true := ends
    simp only [after, added, afterToken]
    generalize Element.ofName tag.name = role at sectioning
    cases role with
    | sectioning | navigation =>
      simp only [beforeStart, ended]
      exact ⟨trivial, h.needMain, rfl⟩
    | _ => cases sectioning
  | endTag tag =>
    have role := Element.ofName_eq_body_iff.mpr ends
    simp only [after, added, ended, afterToken, afterEnd, role]
    exact ⟨rfl, rfl, rfl⟩
  | _ => cases ends

end MainState

/-- With the start of a body main content waits. -/
theorem MainState.Idle.body {f : MainState} (h : f.Idle) (outside : f.sectionDepth = 0)
    (inTable : Bool) {token : Token} (body : IsBodyStart token) :
    f.added inTable token = none ∧ (f.after inTable token).Waiting := by
  cases token with
  | startTag tag =>
    have role := Element.ofName_eq_body_iff.mpr body
    simp only [MainState.after, MainState.added, MainState.beforeStart, MainState.afterAdded_none,
      MainState.afterToken, MainState.afterStart, role]
    exact ⟨trivial, rfl, h.mainOpen, by simp [outside]⟩
  | _ => cases body

/-! ### Runs -/

variable {settings : Settings}

/-- What is added before tokens that come in an outline. -/
def addedFrom (settings : Settings) (o : Outline) (tokens : List Token) : List (Option Fragment) :=
  (sharesFrom settings o tokens).map Share.added

theorem addedFrom_cons (o : Outline) (token : Token) (rest : List Token) :
    addedFrom settings o (token :: rest) = o.mainState.added o.table.isSome token ::
      addedFrom settings (o.edit settings token).outline rest := rfl

theorem addedFrom_append (xs ys : List Token) (o : Outline) :
    addedFrom settings o (xs ++ ys) =
      addedFrom settings o xs ++ addedFrom settings (outlineFrom settings o xs) ys := by
  rw [addedFrom, sharesFrom_append, List.map_append]
  rfl

theorem nothing_cons (x : Token) (xs : List Token) : nothing (x :: xs) = none :: nothing xs := rfl

theorem MainState.Idle.run (settings : Settings) : ∀ {tokens : List Token} {o : Outline},
    o.mainState.Idle → (∀ x ∈ tokens, ¬IsBodyStart x) →
    addedFrom settings o tokens = nothing tokens ∧ (outlineFrom settings o tokens).mainState.Idle
  | [], _, h, _ => ⟨rfl, h⟩
  | token :: rest, o, h, body => by
    obtain ⟨added, after⟩ := h.step o.table.isSome (body token (by simp))
    rw [← Outline.mainState_edit _ settings] at after
    obtain ⟨addedRest, afterRest⟩ :=
      after.run settings fun x hx => body x (List.mem_cons_of_mem token hx)
    exact ⟨by rw [addedFrom_cons, added, addedRest, nothing_cons], afterRest⟩

theorem MainState.Within.run (settings : Settings) : ∀ {tokens : List Token} {o : Outline},
    o.mainState.Within → (∀ x ∈ tokens, ¬IsBodyStart x) → (∀ x ∈ tokens, ¬EndsMain x) →
    addedFrom settings o tokens = nothing tokens ∧ (outlineFrom settings o tokens).mainState.Within
  | [], _, h, _, _ => ⟨rfl, h⟩
  | token :: rest, o, h, body, goesOn => by
    obtain ⟨added, after⟩ := h.step o.table.isSome (body token (by simp))
      (goesOn token (by simp))
    rw [← Outline.mainState_edit _ settings] at after
    obtain ⟨addedRest, afterRest⟩ := after.run settings
      (fun x hx => body x (List.mem_cons_of_mem token hx))
      fun x hx => goesOn x (List.mem_cons_of_mem token hx)
    exact ⟨by rw [addedFrom_cons, added, addedRest, nothing_cons], afterRest⟩

theorem not_mayBegin_head {before rest : List Token} {token : Token}
    (first : ∀ front x back, token :: rest = front ++ x :: back → ¬MayBegin (before ++ front) x) :
    ¬MayBegin before token := by
  simpa using first [] token rest rfl

/-- Nothing is added before tokens among which main content waits. -/
theorem MainState.Waiting.run (settings : Settings) : ∀ {tokens : List Token} {o : Outline}
    {before : List Token}, o.mainState.Waiting → Tracks o before → (∀ x ∈ tokens, x.isEnd = false) →
    (∀ x ∈ tokens, ¬IsBodyStart x) → (∀ x ∈ tokens, ¬ForbidsMain x) →
    (∀ front x back, tokens = front ++ x :: back → ¬MayBegin (before ++ front) x) →
    addedFrom settings o tokens = nothing tokens ∧
      (outlineFrom settings o tokens).mainState.Waiting
  | [], _, _, h, _, _, _, _, _ => ⟨rfl, h⟩
  | token :: rest, o, before, h, tracks, inner, body, allowed, first => by
    have quiet := not_mayBegin_head first
    obtain ⟨added, after⟩ := h.step tracks.isSome_iff (body token (by simp))
      (allowed token (by simp)) fun outside begins => quiet ⟨tracks.sections ▸ outside, begins⟩
    rw [← Outline.mainState_edit _ settings] at after
    have next := tracks.edit settings (inner token (by simp))
    obtain ⟨addedRest, afterRest⟩ := after.run settings next
      (fun x hx => inner x (List.mem_cons_of_mem token hx))
      (fun x hx => body x (List.mem_cons_of_mem token hx))
      (fun x hx => allowed x (List.mem_cons_of_mem token hx))
      fun front x back split => by
        simpa using first (token :: front) x back (by rw [split, List.cons_append])
    exact ⟨by rw [addedFrom_cons, added, addedRest, nothing_cons], afterRest⟩

/-- Main content that begins after a token begins before it as well, unless it may or must not begin
at the token. -/
theorem BeginsAt.cons {before mid : List Token} {token x : Token}
    (h : BeginsAt (before ++ [x]) mid token) (quiet : ¬MayBegin before x)
    (allowed : ¬ForbidsMain x) : BeginsAt before (x :: mid) token where
  here := by simpa using h.here
  first front y back split := by
    cases front with
    | nil =>
      obtain ⟨rfl, -⟩ := List.cons.inj split
      simpa using quiet
    | cons z front =>
      obtain ⟨rfl, tail⟩ := List.cons.inj split
      simpa using h.first front y back tail
  allowed y mem := by
    rcases List.mem_cons.mp mem with rfl | mem
    · exact allowed
    · exact h.allowed y mem

theorem MainState.Waiting.never (settings : Settings) : ∀ {tokens : List Token} {o : Outline}
    {before : List Token}, o.mainState.Waiting → Tracks o before → (∀ x ∈ tokens, x.isEnd = false) →
    (∀ x ∈ tokens, ¬IsBodyStart x) →
    (∀ mid token rest, tokens = mid ++ token :: rest → ¬BeginsAt before mid token) →
    addedFrom settings o tokens = nothing tokens
  | [], _, _, _, _, _, _, _ => rfl
  | token :: rest, o, before, h, tracks, inner, body, never => by
    have bodyRest : ∀ x ∈ rest, ¬IsBodyStart x := fun x hx => body x (List.mem_cons_of_mem token hx)
    have quiet : ¬MayBegin before token := fun may =>
      never [] token rest rfl ⟨by simpa using may, fun _ _ _ h => by simp at h, by simp⟩
    by_cases forbids : ForbidsMain token
    · obtain ⟨added, after⟩ := h.forbidden o.table.isSome forbids
      rw [← Outline.mainState_edit _ settings] at after
      rw [addedFrom_cons, added, (after.run settings bodyRest).1, nothing_cons]
    · obtain ⟨added, after⟩ := h.step tracks.isSome_iff (body token (by simp)) forbids
        fun outside begins => quiet ⟨tracks.sections ▸ outside, begins⟩
      rw [← Outline.mainState_edit _ settings] at after
      have next := tracks.edit settings (inner token (by simp))
      have addedRest := after.never settings next
        (fun x hx => inner x (List.mem_cons_of_mem token hx)) bodyRest fun mid t rest split begins =>
          never (token :: mid) t rest (by rw [split, List.cons_append]) (begins.cons quiet forbids)
      rw [addedFrom_cons, added, addedRest, nothing_cons]

/-! ### Documents -/

/-- Main content ends before the first of the tokens, if there is one. -/
def endedBefore : List Token → List (Option Fragment)
  | [] => []
  | _ :: rest => some .mainEnd :: nothing rest

/-- What is added before the pieces of a document, which are those of tokens up to the start of the
body and of tokens after it: one start tag before the token that main content begins at, if there is
one, and then one end tag before the first token that ends it. -/
structure PlacesMain (before after : List Token) (added : List (Option Fragment)) : Prop where
  begins : ∀ mid token inner outer, after = mid ++ token :: (inner ++ outer) →
    BeginsAt before mid token → (∀ x ∈ inner, ¬EndsMain x) → (∀ x ∈ outer.head?, EndsMain x) →
    added = nothing (before ++ mid) ++ some .mainStart :: (nothing inner ++ endedBefore outer)
  never : (∀ mid token rest, after = mid ++ token :: rest → ¬BeginsAt before mid token) →
    added = nothing (before ++ after)

/-- Where main content begins one start tag is added, and where it ends one end tag. -/
theorem addedFrom_begins {o : Outline} {before mid inner outer : List Token} {token : Token}
    (waiting : o.mainState.Waiting) (tracks : Tracks o before) (ended : ∀ x ∈ mid, x.isEnd = false)
    (body : ∀ x ∈ mid ++ token :: (inner ++ outer), ¬IsBodyStart x)
    (begins : BeginsAt before mid token) (goesOn : ∀ x ∈ inner, ¬EndsMain x)
    (ends : ∀ x ∈ outer.head?, EndsMain x) :
    addedFrom settings o (mid ++ token :: (inner ++ outer)) =
      nothing mid ++ some .mainStart :: (nothing inner ++ endedBefore outer) := by
  obtain ⟨addedMid, waiting⟩ := waiting.run settings tracks ended
    (fun x hx => body x (by simp [hx])) begins.allowed begins.first
  have tracks := tracks.run settings ended
  obtain ⟨addedToken, within⟩ := waiting.begin tracks.isSome_iff
    (tracks.sections.trans begins.here.1) begins.here.2
  rw [← Outline.mainState_edit _ settings] at within
  obtain ⟨addedInner, within⟩ := within.run settings
    (fun x hx => body x (by simp [hx])) goesOn
  rw [addedFrom_append, addedMid, addedFrom_cons, addedToken, addedFrom_append, addedInner]
  cases outer with
  | nil => rfl
  | cons x rest =>
    obtain ⟨addedEnd, idle⟩ := within.stop (outlineFrom settings _ inner).table.isSome
      (ends x rfl)
    rw [← Outline.mainState_edit _ settings] at idle
    rw [addedFrom_cons, addedEnd, (idle.run settings fun y hy => body y (by simp [hy])).1,
      endedBefore]

theorem placesMain_addedFrom {before main : List Token} {body : Token} {line : Option Int}
    {raw : String} (ended : ∀ x ∈ before ++ main, x.isEnd = false) (isBody : IsBodyStart body)
    (single : ∀ x ∈ before ++ main, ¬IsBodyStart x) (outside : sectionDepth before = 0) :
    PlacesMain (before ++ [body]) (main ++ [.endOfInput line raw])
      (addedFrom settings {} (before ++ body :: (main ++ [.endOfInput line raw]))) := by
  rw [List.forall_mem_append] at ended single
  have start : ({} : Outline).mainState.Idle := ⟨rfl, rfl⟩
  obtain ⟨addedBefore, idle⟩ := start.run settings single.1
  have tracks : Tracks (outlineFrom settings {} before) before := tracks_nil.run settings ended.1
  obtain ⟨addedBody, waiting⟩ := idle.body (tracks.sections.trans outside)
    (outlineFrom settings {} before).table.isSome isBody
  rw [← Outline.mainState_edit _ settings] at waiting
  have bodyInner : body.isEnd = false := by
    cases body with
    | startTag => rfl
    | _ => cases isBody
  have tracks := tracks.edit settings bodyInner
  have singleMain : ∀ x ∈ main ++ [.endOfInput line raw], ¬IsBodyStart x := by
    intro x mem
    rcases List.mem_append.mp mem with mem | mem
    · exact single.2 x mem
    · obtain rfl := List.mem_singleton.mp mem
      exact not_false
  rw [addedFrom_append, addedBefore, addedFrom_cons, addedBody]
  refine ⟨fun mid token inner outer split begins goesOn ends => ?_, fun never => ?_⟩
  · have within : mid ++ (token :: (inner ++ outer)).dropLast = main := by
      rw [← List.dropLast_append_of_ne_nil (List.cons_ne_nil _ _), ← split, List.dropLast_concat]
    have endedMid : ∀ x ∈ mid, x.isEnd = false := fun x hx => ended.2 x (by simp [← within, hx])
    rw [split] at singleMain ⊢
    rw [addedFrom_begins waiting tracks endedMid singleMain begins goesOn ends]
    simp [nothing]
  · have addedMain := waiting.never settings tracks ended.2 single.2 fun mid token rest split =>
      never mid token (rest ++ [.endOfInput line raw]) (by simp [split])
    rw [addedFrom_append, addedMain]
    simp [nothing, addedFrom, sharesFrom, Outline.share, MainState.added]

theorem Apportions.added_eq {tokens : List Token} {plain pieces : List Piece}
    (h : Apportions settings tokens plain pieces) :
    pieces.map Piece.added = plain.map Piece.added := by
  refine List.ext_getElem? fun i => ?_
  rw [List.getElem?_map, List.getElem?_map]
  by_cases lt : i < tokens.length
  · have plain_i := List.getElem?_eq_getElem (h.length_plain ▸ lt)
    have piece_i := List.getElem?_eq_getElem (h.length_pieces ▸ lt)
    have added := (h.piece i _ _ _ (List.getElem?_eq_getElem lt) plain_i piece_i).1
    rw [plain_i, piece_i, Option.map_some, Option.map_some, added]
  · have noPlain : plain[i]? = none := by simp [h.length_plain, Nat.not_lt.mp lt]
    have noPiece : pieces[i]? = none := by simp [h.length_pieces, Nat.not_lt.mp lt]
    rw [noPlain, noPiece]

/-- **Where a `main` element is added**: in a document with one body that begins in no sectioning
element, around the main content. -/
theorem mend_main {settings : Settings} (strict : settings.strict = false) (xml : Bool)
    (html : String) {before after : List Token} {body : Token}
    (tokens : documentTokens xml html = before ++ body :: after) (isBody : IsBodyStart body)
    (single : ∀ x ∈ before ++ after, ¬IsBodyStart x) (outside : sectionDepth before = 0) :
    ∃ plain pieces, Apportions settings (documentTokens xml html) plain pieces ∧
      (mend settings xml (.whole html)).text = textOf (pieces.flatMap Piece.fragments) ∧
      PlacesMain (before ++ [body]) after (pieces.map Piece.added) := by
  obtain ⟨⟨inner, line, split, ended⟩, report⟩ := documentTokens_spec settings xml html
  obtain ⟨plain, pieces, apportions, shares⟩ := exists_apportions strict inner line ""
  rw [← split] at apportions shares
  refine ⟨plain, pieces, apportions, by rw [report]; exact apportions.output, ?_⟩
  have added : pieces.map Piece.added = addedFrom settings {} (before ++ body :: after) := by
    rw [apportions.added_eq, shares, tokens, addedFrom, List.map_map]
    rfl
  -- The body is not the end of the input, which comes after it.
  obtain ⟨main, rfl⟩ : ∃ main, after = main ++ [.endOfInput line ""] := by
    rcases List.eq_nil_or_concat after with rfl | ⟨main, last, rfl⟩
    · obtain ⟨-, same⟩ := List.append_inj' (split.symm.trans tokens) rfl
      cases same
      cases isBody
    · refine ⟨main, ?_⟩
      have same : inner ++ [.endOfInput line ""] = (before ++ body :: main) ++ [last] := by
        simpa using split.symm.trans tokens
      obtain ⟨-, same⟩ := List.append_inj' same rfl
      simpa using same.symm
  obtain ⟨same, -⟩ := List.append_inj' (split.symm.trans tokens |>.trans
    (List.append_assoc before (body :: main) [Token.endOfInput line ""]).symm) rfl
  rw [added]
  exact placesMain_addedFrom (fun x hx => ended x (by rw [same]; grind)) isBody
    (fun x hx => single x (by grind)) outside

theorem mend_main_text :
    let body := Token.startTag { name := "body", line := some 1, raw := "<body>" }
    let after := [.text "a" (some 1) "a", .endTag ⟨"body", some 1, "</body>"⟩,
      .endOfInput (some 1) ""]
    ({} : Settings).strict = false ∧ documentTokens false "<body>a</body>" = [] ++ body :: after ∧
      IsBodyStart body ∧ (∀ x ∈ [] ++ after, ¬IsBodyStart x) ∧ sectionDepth [] = 0 ∧
      ∃ plain pieces, Apportions {} (documentTokens false "<body>a</body>") plain pieces ∧
        (mend {} false (.whole "<body>a</body>")).text = textOf (pieces.flatMap Piece.fragments) ∧
        PlacesMain ([] ++ [body]) after (pieces.map Piece.added) := by
  intro body after
  have tokens : documentTokens false "<body>a</body>" = [] ++ body :: after := by decide +kernel
  have isBody : IsBodyStart body := rfl
  have single : ∀ x ∈ [] ++ after, ¬IsBodyStart x := by simp [after, IsBodyStart]
  exact ⟨rfl, tokens, isBody, single, rfl, mend_main rfl false _ tokens isBody single rfl⟩

end HtmlMend.Page
