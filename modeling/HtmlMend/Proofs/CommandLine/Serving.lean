import HtmlMend.CommandLine.Program

/-! # Command line: how a request is met

A request is met in two steps: its paths lead to places, or one of them cannot be opened
(`serve_of_error`); then the page is worked on and the work is delivered to the place of the output
(`serve_of_places`). Work has the status zero exactly if nothing is concluded about the page
(`Work.status_eq_zero_iff`), and it is never silent otherwise (`Work.messages_ne_empty`). -/

namespace HtmlMend.CommandLine

open Input Markup Output Page

variable {d : Directory} {stdin : ByteArray} {arguments : List String} {request : Request}

theorem run_of_read (accepted : read arguments = .run request) :
    run d stdin arguments = serve d stdin request := by
  rw [run, accepted]

/-! ### Places -/

/-- The places of the input and of the output of a request, or what is said about the path that
cannot be opened. -/
def Request.places (request : Request) (d : Directory) :
    Except String (Option Place × Option Place) := do
  let input ← openPath request request.input (openInput d)
  let output ← openPath request request.output (openOutput d)
  return (input, output)

/-- The directory after an output is opened. -/
def Directory.emptied (d : Directory) : Option Place → Directory
  | none => d
  | some place => d.write place .empty

/-- The page that is read from an input; without one it comes from standard input. -/
def Directory.page (d : Directory) (stdin : ByteArray) : Option Place → ByteArray
  | none => stdin
  | some place => d.content place

/-- What work leaves that is delivered to an output. -/
def Request.deliver (request : Request) (d : Directory) (work : Work) : Option Place → Outcome
  | none => ⟨work.status, work.output, work.messages, d⟩
  | some .fullDevice =>
    ⟨(request.withoutSpace work).status, "", (request.withoutSpace work).messages, d⟩
  | some place =>
    ⟨work.status, "", work.messages, (d.emptied (some place)).write place work.output.toUTF8⟩

/-- The page that is read for a request, if its paths can be opened. -/
def Request.page? (request : Request) (d : Directory) (stdin : ByteArray) : Option ByteArray :=
  match request.places d with
  | .error _ => none
  | .ok (input, output) => some ((d.emptied output).page stdin input)

/-- **A path that cannot be opened** ends the program with its message, and nothing is changed. -/
theorem serve_of_error {message : String} (places : request.places d = .error message) :
    serve d stdin request = ⟨1, "", message, d⟩ := by
  unfold Request.places at places
  unfold serve
  simp only [places]

/-- **The work on the page is delivered** to the output, once the places are found. -/
theorem serve_of_places {input output : Option Place}
    (places : request.places d = .ok (input, output)) :
    serve d stdin request =
      request.deliver d (request.work ((d.emptied output).page stdin input)) output := by
  unfold Request.places at places
  unfold serve
  simp only [places]
  cases input <;> cases output with
  | none => rfl
  | some place => cases place <;> rfl

theorem page?_of_places {input output : Option Place}
    (places : request.places d = .ok (input, output)) :
    request.page? d stdin = some ((d.emptied output).page stdin input) := by
  rw [Request.page?, places]

/-! ### Messages -/

theorem unlines_ne_empty {lines : List String} (ne : lines ≠ []) : unlines lines ≠ "" := by
  obtain ⟨line, rest, rfl⟩ := List.exists_cons_of_ne_nil ne
  intro empty
  have chars := congrArg String.toList empty
  simp [unlines] at chars

theorem openFailure_ne_empty (request : Request) (path : String) (e : OpenError) :
    request.openFailure path e ≠ "" := by
  cases e with
  | nullCharacter => exact unlines_ne_empty (by simp)
  | noPath => exact unlines_ne_empty (by simp)
  | file why => exact unlines_ne_empty (by simp)

theorem openPath_eq_error {path : Option String} {find : String → Except OpenError Place}
    {message : String} (h : openPath request path find = .error message) :
    ∃ path e, message = request.openFailure path e := by
  unfold openPath at h
  split at h
  · cases h
  split at h
  · next path _ e _ => exact ⟨path, e, (Except.error.inj h).symm⟩
  · cases h

theorem ne_empty_of_places {message : String} (places : request.places d = .error message) :
    message ≠ "" := by
  obtain ⟨path, e, rfl⟩ : ∃ path e, message = request.openFailure path e := by
    unfold Request.places at places
    cases input : openPath request request.input (openInput d) with
    | error message =>
      rw [input] at places
      exact Except.error.inj places ▸ openPath_eq_error input
    | ok place =>
      cases output : openPath request request.output (openOutput d) with
      | error message =>
        rw [input, output] at places
        exact Except.error.inj places ▸ openPath_eq_error output
      | ok place' =>
        rw [input, output] at places
        cases places
  exact openFailure_ne_empty request path e

namespace Work

variable {w : Work}

theorem status_eq_zero_iff : w.status = 0 ↔ w.conclusion = [] := by
  unfold status
  cases w.conclusion <;> simp

theorem status_eq_zero_or_one (w : Work) : w.status = 0 ∨ w.status = 1 := by
  unfold status
  split
  · exact .inl rfl
  · exact .inr rfl

/-- **Work that does not end with the status zero is not silent.** -/
theorem messages_ne_empty (h : w.status = 1) : w.messages ≠ "" := by
  refine unlines_ne_empty fun empty => ?_
  have none : w.conclusion = [] := (List.append_eq_nil_iff.mp empty).2
  rw [status_eq_zero_iff.mpr none] at h
  exact absurd h (by decide)

end Work

/-- Work without space for its text is the same work if it ends with the status zero. -/
theorem withoutSpace_of_status {w : Work} (h : (request.withoutSpace w).status = 0) :
    request.withoutSpace w = w := by
  unfold Request.withoutSpace at h ⊢
  split
  · rfl
  · next written =>
    rw [if_neg written, Work.status_eq_zero_iff] at h
    cases h

/-- What a run says and the status that it ends with are those of the work that is delivered, or of
the work without space for its text. -/
theorem Request.exists_delivered (request : Request) (d : Directory) (w : Work)
    (output : Option Place) :
    ∃ v, (v = w ∨ v = request.withoutSpace w) ∧ (request.deliver d w output).status = v.status ∧
      (request.deliver d w output).standardError = v.messages := by
  cases output with
  | none => exact ⟨w, .inl rfl, rfl, rfl⟩
  | some place =>
    cases place with
    | fullDevice => exact ⟨request.withoutSpace w, .inr rfl, rfl, rfl⟩
    | _ => exact ⟨w, .inl rfl, rfl, rfl⟩

end HtmlMend.CommandLine
