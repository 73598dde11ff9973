import HtmlMend.Input.Reader

/-! # Input: what a stream delivers

A stream delivers its characters in pieces, until its end or until a read fails (`Stream.chars`,
`Stream.failure?`). A reader gives them out one by one: `Reader.load_cases` says all that loading
the next character can do, in terms of what is `unread`, so that nothing that follows depends on the
pieces. -/

namespace HtmlMend.Input

namespace Stream

/-- The characters delivered before the end or a failure. -/
def chars : Stream → List Char
  | [] => []
  | .failure _ :: _ => []
  | .text s :: later => if s = "" then [] else s.toList ++ chars later

/-- The failure at which delivery stops, if it is one. -/
def failure? : Stream → Option ReadFailure
  | [] => none
  | .failure why :: _ => some why
  | .text s :: later => if s = "" then none else failure? later

@[simp] theorem chars_whole (text : String) : (whole text).chars = text.toList := by
  by_cases h : text = "" <;> simp [whole, chars, h]

@[simp] theorem failure?_whole (text : String) : (whole text).failure? = none := by
  by_cases h : text = "" <;> simp [whole, failure?, h]

theorem chars_pieces (more : Nat) (cs : List Char) :
    chars ((pieces more cs).map fun piece => .text (String.ofList piece)) = cs := by
  fun_induction pieces more cs with
  | case1 => rfl
  | case2 c cs ih =>
    rw [List.map_cons, chars, if_neg (by simp), ih]
    simp

theorem failure?_pieces (more : Nat) (cs : List Char) :
    failure? ((pieces more cs).map fun piece => .text (String.ofList piece)) = none := by
  fun_induction pieces more cs with
  | case1 => rfl
  | case2 c cs ih => rw [List.map_cons, failure?, if_neg (by simp), ih]

theorem chars_inPieces (text : String) {size : Int} (h : size ≠ 0) :
    (inPieces text size).chars = text.toList := by
  match size, h with
  | .ofNat (more + 1), _ => exact chars_pieces more text.toList
  | .negSucc _, _ => exact chars_whole text

theorem failure?_inPieces (text : String) (size : Int) : (inPieces text size).failure? = none := by
  match size with
  | .ofNat 0 => rfl
  | .ofNat (more + 1) => exact failure?_pieces more text.toList
  | .negSucc _ => exact failure?_whole text

/-- Texts that are not empty are delivered one after the other, before what comes later. -/
theorem texts_append (later : Stream) : ∀ {ss : List String}, (∀ s ∈ ss, s ≠ "") →
    chars (ss.map .text ++ later) = (String.join ss).toList ++ chars later ∧
      failure? (ss.map .text ++ later) = failure? later
  | [], _ => ⟨rfl, rfl⟩
  | s :: ss, full => by
    obtain ⟨ne, full⟩ := List.forall_mem_cons.mp full
    obtain ⟨chars_ss, failure_ss⟩ := texts_append later full
    rw [List.map_cons, List.cons_append, chars, failure?, if_neg ne, if_neg ne, chars_ss,
      failure_ss]
    exact ⟨by simp, rfl⟩

/-- The stream is one of those that deliver a text: in pieces of which none is empty, or in pieces
of a size other than zero. -/
inductive Delivers (text : String) : Stream → Prop
  | texts {ss : List String} (full : ∀ s ∈ ss, s ≠ "") (joined : String.join ss = text) :
    Delivers text (ss.map .text)
  | inPieces {size : Int} (ne : size ≠ 0) : Delivers text (inPieces text size)

theorem Delivers.spec {text : String} {stream : Stream} (h : Delivers text stream) :
    stream.chars = text.toList ∧ stream.failure? = none := by
  cases h with
  | texts full joined =>
    obtain ⟨chars, failure⟩ := texts_append [] full
    rw [List.append_nil] at chars failure
    exact ⟨by rw [chars, joined]; exact List.append_nil _, failure⟩
  | inPieces ne => exact ⟨chars_inPieces text ne, failure?_inPieces text _⟩

end Stream

namespace Reader

/-- The characters after the lookahead. -/
def unread (r : Reader) : List Char := r.chunk ++ r.stream.chars

@[simp] theorem unread_ofStream (stream : Stream) : (ofStream stream).unread = stream.chars := rfl

/-- **Loading the next character** either loads it, or comes to the end, or fails where the stream
does; nothing but the place in the input is changed. -/
theorem load_cases (r : Reader) :
    (∃ c next, r.load = (next, none) ∧ r.unread = c :: next.unread ∧ next.lookahead = some c ∧
      next.cursor = r.cursor ∧ next.stream.failure? = r.stream.failure?) ∨
    (∃ next, r.load = (next, none) ∧ r.unread = [] ∧ next.lookahead = none ∧
      next.cursor = r.cursor ∧ r.stream.failure? = none) ∨
    ∃ next why, r.load = (next, some why) ∧ r.unread = [] ∧ r.stream.failure? = some why := by
  obtain ⟨cursor, lookahead, chunk, stream⟩ := r
  rcases chunk with _ | ⟨c, rest⟩
  · rcases stream with _ | ⟨⟨s⟩ | why, later⟩
    · exact .inr (.inl ⟨_, rfl, rfl, rfl, rfl, rfl⟩)
    · rcases h : s.toList with _ | ⟨c, rest⟩
      · have empty : s = "" := String.toList_eq_nil_iff.mp h
        refine .inr (.inl ⟨⟨cursor, none, [], later⟩, by simp [load, h], ?_, rfl, rfl, ?_⟩)
        · simp [unread, Stream.chars, empty]
        · simp [Stream.failure?, empty]
      · have full : s ≠ "" := fun e => by simp [e] at h
        refine .inl ⟨c, ⟨cursor, some c, rest, later⟩, by simp [load, h], ?_, rfl, rfl, ?_⟩
        · simp [unread, Stream.chars, full, h]
        · simp [Stream.failure?, full]
    · exact .inr (.inr ⟨_, why, rfl, rfl, rfl⟩)
  · exact .inl ⟨c, _, rfl, rfl, rfl, rfl, rfl⟩

/-- Moving past a character records it and loads the next one. -/
theorem advance_of_lookahead {r : Reader} {c : Char} (h : r.lookahead = some c) :
    r.advance = { r with cursor := r.cursor.push c }.load := by
  simp [advance, h]

end Reader

end HtmlMend.Input
