import HtmlMend.Markup.Construct

/-! # Markup: the text of a construct

A construct is read from its `<` on. `Completes` says that a text is that of a whole construct, and
`BreaksOff` that it is as much of a construct as can be read before a lookahead. Every text that
begins with `<` begins with one or the other (`exists_completes_or_breaksOff`). -/

namespace HtmlMend.Markup

namespace Unfinished

variable (xml inScript : Bool)

/-- The construct after more characters, if none of them completes it or breaks it off. The text
read before them is `read`. -/
def feed (u : Unfinished) (read : List Char) : List Char → Option Unfinished
  | [] => some u
  | c :: cs =>
    match u.next xml inScript (String.ofList read) c with
    | .more v => v.feed (read ++ [c]) cs
    | _ => none

/-- The construct cannot go on with the lookahead. -/
def StopsBefore (u : Unfinished) (read : List Char) : Option Char → Prop
  | none => True
  | some c => u.next xml inScript (String.ofList read) c = .broken

variable {xml inScript}

@[simp] theorem feed_nil (u : Unfinished) (read : List Char) :
    u.feed xml inScript read [] = some u := rfl

theorem feed_cons {u v : Unfinished} {read : List Char} {c : Char}
    (h : u.next xml inScript (String.ofList read) c = .more v) (cs : List Char) :
    u.feed xml inScript read (c :: cs) = v.feed xml inScript (read ++ [c]) cs := by
  simp [feed, h]

theorem feed_append (ys : List Char) : ∀ (xs : List Char) (u : Unfinished) (read : List Char),
    u.feed xml inScript read (xs ++ ys) =
      (u.feed xml inScript read xs).bind fun v => v.feed xml inScript (read ++ xs) ys
  | [], u, read => by simp
  | c :: xs, u, read => by
    rw [List.cons_append, feed, feed]
    cases u.next xml inScript (String.ofList read) c with
    | more v => simp [feed_append ys xs v]
    | done k => rfl
    | broken => rfl

theorem feed_trans {u v w : Unfinished} {read xs ys : List Char}
    (hv : u.feed xml inScript read xs = some v)
    (hw : v.feed xml inScript (read ++ xs) ys = some w) :
    u.feed xml inScript read (xs ++ ys) = some w := by
  rw [feed_append, hv]
  exact hw

/-- A construct that every one of the characters leaves as it is. -/
theorem feed_of_stays {u : Unfinished} : ∀ {cs : List Char} (read : List Char),
    (∀ c ∈ cs, ∀ read, u.next xml inScript read c = .more u) →
    u.feed xml inScript read cs = some u
  | [], _, _ => rfl
  | c :: _, read, stays => by
    rw [feed_cons (stays c (by simp) _)]
    exact feed_of_stays (read ++ [c]) fun d hd => stays d (List.mem_cons_of_mem c hd)

/-- A construct that goes on as what is read of it says. -/
theorem feed_of_goesOn {g : List Char → Unfinished} : ∀ {cs pre : List Char} (read : List Char),
    (∀ xs c ys, cs = xs ++ c :: ys → ∀ read,
      (g (pre ++ xs)).next xml inScript read c = .more (g (pre ++ xs ++ [c]))) →
    (g pre).feed xml inScript read cs = some (g (pre ++ cs))
  | [], pre, _, _ => by rw [List.append_nil]; rfl
  | c :: cs, pre, read, goesOn => by
    have more : (g pre).next xml inScript (String.ofList read) c = .more (g (pre ++ [c])) := by
      simpa using goesOn [] c cs rfl (String.ofList read)
    have assoc : pre ++ c :: cs = pre ++ [c] ++ cs := by simp
    rw [feed_cons more, assoc]
    refine feed_of_goesOn (read ++ [c]) fun xs d ys split read => ?_
    have next := goesOn (c :: xs) d ys (by rw [split]; rfl) read
    simpa using next

/-- What is read character by character grows by a text. -/
theorem feed_of_grows {f : String → Unfinished} {cs pre : List Char} (read : List Char)
    (grows : ∀ xs c ys, cs = xs ++ c :: ys → ∀ read,
      (f (String.ofList (pre ++ xs))).next xml inScript read c =
        .more (f ((String.ofList (pre ++ xs)).push c))) :
    (f (String.ofList pre)).feed xml inScript read cs = some (f (String.ofList (pre ++ cs))) := by
  refine feed_of_goesOn (g := fun cs => f (String.ofList cs)) read fun xs c ys split read => ?_
  have pushed (text : List Char) :
      (String.ofList text).push c = String.ofList (text ++ [c]) := by simp
  rw [← pushed]
  exact grows xs c ys split read

theorem feed_keeps {P : Unfinished → List Char → Prop}
    (step : ∀ {u v read c}, P u read → u.next xml inScript (String.ofList read) c = .more v →
      P v (read ++ [c])) :
    ∀ {cs : List Char} {u v : Unfinished} {read : List Char}, P u read →
      u.feed xml inScript read cs = some v → P v (read ++ cs)
  | [], u, v, read, h, fed => by
    obtain rfl : u = v := Option.some.inj fed
    simpa using h
  | c :: cs, u, v, read, h, fed => by
    rw [feed] at fed
    cases more : u.next xml inScript (String.ofList read) c with
    | more w =>
      rw [more] at fed
      simpa using feed_keeps step (step h more) fed
    | done k => simp [more] at fed
    | broken => simp [more] at fed

/-- What is read of a text before it completes the construct or breaks it off. -/
theorem feed_cases (xml inScript : Bool) : ∀ (cs : List Char) (u : Unfinished) (read : List Char),
    (∃ body c rest v k, cs = body ++ c :: rest ∧ u.feed xml inScript read body = some v ∧
      v.next xml inScript (String.ofList (read ++ body)) c = .done k) ∨
    ∃ body rest v, cs = body ++ rest ∧ u.feed xml inScript read body = some v ∧
      v.StopsBefore xml inScript (read ++ body) rest.head?
  | [], u, read => .inr ⟨[], [], u, rfl, rfl, trivial⟩
  | c :: cs, u, read => by
    cases h : u.next xml inScript (String.ofList read) c with
    | more v =>
      rcases feed_cases xml inScript cs v (read ++ [c]) with
        ⟨body, d, rest, w, k, rfl, hw, hd⟩ | ⟨body, rest, w, rfl, hw, hd⟩
      · exact .inl ⟨c :: body, d, rest, w, k, rfl, by rw [feed_cons h, hw], by simpa using hd⟩
      · exact .inr ⟨c :: body, rest, w, rfl, by rw [feed_cons h, hw], by simpa using hd⟩
    | done k => exact .inl ⟨[], c, cs, u, k, rfl, rfl, by simpa using h⟩
    | broken => exact .inr ⟨[], c :: cs, u, rfl, rfl, by simpa [StopsBefore] using h⟩

end Unfinished

/-- A text is that of a whole construct. -/
def Completes (xml inScript : Bool) (raw : List Char) (k : Construct) : Prop :=
  ∃ body c u, raw = '<' :: (body ++ [c]) ∧
    Unfinished.begun.feed xml inScript ['<'] body = some u ∧
    u.next xml inScript (String.ofList ('<' :: body)) c = .done k

/-- A text is that of a construct as far as it can be read before a lookahead. -/
def BreaksOff (xml inScript : Bool) (raw : List Char) (look : Option Char) : Prop :=
  ∃ body u, raw = '<' :: body ∧ Unfinished.begun.feed xml inScript ['<'] body = some u ∧
    u.StopsBefore xml inScript raw look

variable {xml inScript : Bool} {raw : List Char}

theorem Completes.head? {k : Construct} (h : Completes xml inScript raw k) :
    raw.head? = some '<' := by
  obtain ⟨body, c, u, rfl, -, -⟩ := h
  rfl

theorem BreaksOff.head? {look : Option Char} (h : BreaksOff xml inScript raw look) :
    raw.head? = some '<' := by
  obtain ⟨body, u, rfl, -, -⟩ := h
  rfl

theorem ne_nil_of_head?_eq {c : Char} (h : raw.head? = some c) : raw ≠ [] := by
  rintro rfl
  simp at h

/-- **Every `<` begins a whole construct or one that breaks off.** -/
theorem exists_completes_or_breaksOff (xml inScript : Bool) (cs : List Char) :
    (∃ raw rest k, '<' :: cs = raw ++ rest ∧ Completes xml inScript raw k) ∨
    ∃ raw rest, '<' :: cs = raw ++ rest ∧ BreaksOff xml inScript raw rest.head? := by
  rcases Unfinished.feed_cases xml inScript cs .begun ['<'] with
    ⟨body, c, rest, u, k, rfl, hu, hc⟩ | ⟨body, rest, u, rfl, hu, hc⟩
  · exact .inl ⟨'<' :: (body ++ [c]), rest, k, by simp, body, c, u, rfl, hu, hc⟩
  · exact .inr ⟨'<' :: body, rest, rfl, body, u, rfl, hu, hc⟩

end HtmlMend.Markup
