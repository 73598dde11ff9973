import HtmlMend.Proofs.Markup.Cover
import HtmlMend.Proofs.Markup.Writing

/-! # Markup: start tags that a scanner passes on

`PassesOn` says that some document makes a scanner pass a start tag on, and how names are read
there. Such a tag is written as tags are, and it means what is written (`PassesOn.exists_written`).
A scanner within a construct holds the text of it in form, and each reaction keeps it so
(`InForm.react`). -/

namespace HtmlMend.Markup

open Input

/-- A start tag is passed on with the reaction to what comes after some characters of a document.
Names are then read as those of XML or not, as `xml` says. -/
def PassesOn (xml : Bool) (tag : StartTag) : Prop :=
  ∃ (first : Bool) (before : List Char) (look : Option Char),
    let r := (Scanner.new first).readOn {} before
    .startTag tag ∈ (r.scanner.react r.cursor look).tokens ∧ r.scanner.xml = xml

namespace Scanner

/-- The pending text of a construct has the form of what is read of it. -/
def InForm (s : Scanner) (cur : Cursor) : Prop :=
  match s.mode with
  | .within u => ∃ read, InConstruct s.xml s.inScript u read ∧ cur.pending = String.ofList read
  | .closed k => ∃ raw, Form s.xml s.inScript raw k ∧ cur.pending = String.ofList raw
  | _ => True

variable {s : Scanner} {cur : Cursor}

/-! ### Reactions -/

theorem pending_flush (s : Scanner) (cur : Cursor) : (s.flush cur).cursor.pending = "" := by
  unfold flush
  split
  · next nothing => exact nothing.2
  · rfl

theorem inForm_readText (s : Scanner) (cur : Cursor) (c : Char) :
    InForm (s.readText cur (some c)).scanner ((s.readText cur (some c)).cursor.push c) := by
  unfold readText
  split
  · next h => cases h
  · next h =>
    obtain rfl := Option.some.inj h
    refine ⟨['<'], .begun, ?_⟩
    change (s.flush cur).cursor.pending.push '<' = _
    rw [pending_flush]
    rfl
  · next d _ _ =>
    unfold InForm
    by_cases lineEnd : d = '\n'
    · simp [lineEnd]
    · simp [lineEnd]

/-- **Each reaction keeps what is read in form.** -/
theorem InForm.react (h : s.InForm cur) (c : Char) :
    InForm (s.react cur (some c)).scanner ((s.react cur (some c)).cursor.push c) := by
  unfold Scanner.react
  cases mode : s.mode with
  | text => exact inForm_readText ..
  | lineEnd => exact inForm_readText ..
  | closed k => exact inForm_readText ..
  | within u =>
    rw [InForm, mode] at h
    obtain ⟨read, within, pending⟩ := h
    have pushed : (cur.push c).pending = String.ofList (read ++ [c]) := by simp [pending]
    simp only [progress, pending]
    cases next : u.next s.xml s.inScript (String.ofList read) c with
    | more v => exact ⟨read ++ [c], within.next_more next, pushed⟩
    | done k => exact ⟨read ++ [c], within.next_done next, pushed⟩
    | broken => exact inForm_readText ..

theorem InForm.readOn : ∀ (cs : List Char) {s : Scanner} {cur : Cursor}, s.InForm cur →
    InForm (s.readOn cur cs).scanner (s.readOn cur cs).cursor
  | [], _, _, h => h
  | c :: cs, _, _, h => InForm.readOn cs (h.react c)

theorem inForm_readOn_new (first : Bool) (cs : List Char) :
    InForm ((new first).readOn {} cs).scanner ((new first).readOn {} cs).cursor :=
  InForm.readOn cs trivial

/-! ### Tokens -/

variable {token : Token} {look : Option Char}

theorem isConstruct_of_mem_flush (mem : token ∈ (s.flush cur).tokens) : token.isConstruct = false := by
  unfold flush at mem
  split at mem
  · cases mem
  · obtain rfl := List.mem_singleton.mp mem
    rfl

theorem isConstruct_of_mem_readText (mem : token ∈ (s.readText cur look).tokens) :
    token.isConstruct = false := by
  unfold readText at mem
  split at mem
  · rcases List.mem_append.mp mem with mem | mem
    · exact isConstruct_of_mem_flush mem
    · obtain rfl := List.mem_singleton.mp mem
      rfl
  · exact isConstruct_of_mem_flush mem
  · cases mem

theorem isConstruct_of_mem_breakOff (mem : token ∈ (s.breakOff cur).tokens) :
    token.isConstruct = false := by
  unfold breakOff at mem
  dsimp only at mem
  split at mem
  · cases mem
  · obtain rfl := List.mem_singleton.mp mem
    rfl

theorem mode_of_isConstruct (isConstruct : token.isConstruct = true)
    (mem : token ∈ (s.react cur look).tokens) :
    ∃ k, s.mode = .closed k ∧ token ∈ (s.complete cur k).tokens := by
  have not_text {t : Scanner} {cur : Cursor} : token ∉ (t.readText cur look).tokens := fun mem =>
    absurd (isConstruct_of_mem_readText mem) (by simp [isConstruct])
  have not_flushed {t : Scanner} : token ∉ (t.flush cur).tokens := fun mem =>
    absurd (isConstruct_of_mem_flush mem) (by simp [isConstruct])
  have not_broken {t : Scanner} : token ∉ (t.breakOff cur).tokens := fun mem =>
    absurd (isConstruct_of_mem_breakOff mem) (by simp [isConstruct])
  unfold react at mem
  split at mem
  · exact absurd mem not_text
  · exact ((List.mem_append.mp mem).elim not_flushed not_text).elim
  · next k mode =>
    rcases List.mem_append.mp mem with mem | mem
    · exact ⟨k, mode, mem⟩
    · exact absurd mem not_text
  · dsimp only at mem
    split at mem
    · cases mem
    · cases mem
    · exact ((List.mem_append.mp mem).elim not_broken not_text).elim

/-- What is in form is passed on as it is written. -/
theorem InForm.exists_written (h : s.InForm cur) {tag : StartTag}
    (mem : .startTag tag ∈ (s.react cur look).tokens) :
    ∃ (w : WrittenTag) (line : Option Int), w.Valid s.xml ∧ tag = w.startTag line := by
  obtain ⟨k, mode, mem⟩ := mode_of_isConstruct rfl mem
  rw [InForm, mode] at h
  obtain ⟨raw, form, pending⟩ := h
  cases form with
  | startTag w valid script =>
    have same := Token.startTag.inj (List.mem_singleton.mp mem)
    rw [pending] at same
    exact ⟨w, some (s.markupLine : Int), valid, same⟩
  | _ => simp [complete] at mem

end Scanner

/-- **A start tag that is passed on** is written as tags are, and means what is written. -/
theorem PassesOn.exists_written {xml : Bool} {tag : StartTag} (h : PassesOn xml tag) :
    ∃ (w : WrittenTag) (line : Option Int), w.Valid xml ∧ tag = w.startTag line := by
  obtain ⟨first, before, look, mem, rfl⟩ := h
  exact (Scanner.inForm_readOn_new first before).exists_written mem

/-! ### Scans -/

namespace Scanner

theorem passesOn_of_mem_readOn (first : Bool) {tag : StartTag} : ∀ (cs before : List Char),
    .startTag tag ∈ ((((new first).readOn {} before).scanner.readOn
      ((new first).readOn {} before).cursor cs).tokens) → ∃ xml, PassesOn xml tag
  | [], _, mem => by cases mem
  | c :: cs, before, mem => by
    rw [readOn_cons, Reaction.tokens_after] at mem
    rcases List.mem_append.mp mem with here | later
    · exact ⟨_, first, before, some c, here, rfl⟩
    · refine passesOn_of_mem_readOn first cs (before ++ [c]) ?_
      rw [readOn_append]
      exact later

/-- **The start tags of a scan are passed on**, whatever the scanner has read before. -/
theorem exists_passesOn_of_mem_scan {s : Scanner} {stream : Stream} {tag : StartTag}
    (mem : .startTag tag ∈ (s.scan (.ofStream stream)).tokens.toList) : ∃ xml, PassesOn xml tag := by
  cases failure : stream.failure? with
  | some why =>
    rw [scan_of_failure?_eq_some s failure] at mem
    exact passesOn_of_mem_readOn s.xmlFirst stream.chars [] mem
  | none =>
    have whole := readOut_append [] stream.chars (new s.xmlFirst) {}
    rw [List.append_nil] at whole
    have tokens : .startTag tag ∈ ((new s.xmlFirst).readOut {} stream.chars).tokens := by
      simpa [scan_of_failure?_eq_none s failure, restart] using mem
    rw [whole, Reaction.tokens_after] at tokens
    rcases List.mem_append.mp tokens with here | atEnd
    · exact passesOn_of_mem_readOn s.xmlFirst stream.chars [] here
    · exact ⟨_, s.xmlFirst, stream.chars, none, atEnd, rfl⟩

end Scanner

end HtmlMend.Markup
