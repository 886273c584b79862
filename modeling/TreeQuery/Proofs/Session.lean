import TreeQuery.Proofs.Success
import TreeQuery.Session

/-!
Runs that end with a value. Every run before them has then ended with a value too, whether they
stand one after the other or beside each other.
-/

namespace TreeQuery.Run

variable {σ ε ε' α β : Type} {s s' : Session σ}

theorem bind_of_ok {x : Run σ ε α} {a : α} (h : x s = (.ok a, s')) (f : α → Run σ ε β) :
    (x >>= f) s = f a s' := by
  simp only [bind, h]

theorem bind_of_error {x : Run σ ε α} {e : Stop ε} (h : x s = (.error e, s'))
    (f : α → Run σ ε β) : (x >>= f) s = (.error e, s') := by
  simp only [bind, h]

theorem bind_ok {x : Run σ ε α} {f : α → Run σ ε β} {b : β} :
    (x >>= f) s = (.ok b, s') ↔ ∃ a t, x s = (.ok a, t) ∧ f a t = (.ok b, s') := by
  rcases ran : x s with ⟨e | a, t⟩
  · rw [bind_of_error ran]
    simp
  · rw [bind_of_ok ran]
    constructor
    · intro h
      exact ⟨a, t, rfl, h⟩
    · rintro ⟨_, _, ⟨⟩, h⟩
      exact h

theorem pure_ok {a b : α} : (pure a : Run σ ε α) s = (.ok b, s') ↔ a = b ∧ s = s' := by
  have unfolded : (pure a : Run σ ε α) s = (.ok a, s) := rfl
  simp [unfolded]

theorem ofExcept_ok {f : ε' → ε} {x : Except ε' α} {a : α} :
    (ofExcept f x : Run σ ε α) s = (.ok a, s') ↔ x = .ok a ∧ s = s' := by
  cases x with
  | error e => simp [ofExcept, fail]
  | ok b => rw [ofExcept, pure_ok, Except.ok.injEq]

theorem beside_ok {w : Waiting} {x : Run σ ε α} {a : α} {f : α → Run σ ε β} {b : β} :
    beside w x a f s = (.ok b, s') ↔ ∃ v t, x s = (.ok v, t) ∧ f v t = (.ok b, s') := by
  rw [beside]
  rcases x s with ⟨(_ | _) | v, t⟩
  · simp
  · cases w with
    | inTurn => simp
    | together =>
      simp only
      split <;> simp
  · constructor
    · intro h
      exact ⟨v, t, rfl, h⟩
    · rintro ⟨_, _, ⟨⟩, h⟩
      exact h

/-- If the run ends with a value, no statement has reached the database. -/
structure Silent (x : Run σ ε α) : Prop where
  kept : ∀ s a s', x s = (.ok a, s') → s'.issued = s.issued

namespace Silent

theorem pure (a : α) : Silent (pure a : Run σ ε α) where
  kept := by
    rintro s _ _ ⟨⟩
    rfl

theorem fail (e : ε) : Silent (fail e : Run σ ε α) := ⟨nofun⟩

theorem hang : Silent (hang : Run σ ε α) := ⟨nofun⟩

theorem get : Silent (get : Run σ ε (Session σ)) where
  kept := by
    rintro s _ _ ⟨⟩
    rfl

theorem cancelIf (b : Bool) : Silent (cancelIf b : Run σ ε Unit) where
  kept := by
    rintro s _ _ ⟨⟩
    rfl

theorem ofExcept (f : ε' → ε) (x : Except ε' α) : Silent (ofExcept f x : Run σ ε α) := by
  cases x with
  | error e => exact fail (f e)
  | ok a => exact pure a

theorem bind {x : Run σ ε α} {f : α → Run σ ε β} (first : Silent x) (next : ∀ a, Silent (f a)) :
    Silent (x >>= f) where
  kept s b s' ran := by
    obtain ⟨a, t, ranFirst, ranNext⟩ := bind_ok.mp ran
    exact ((next a).kept t b s' ranNext).trans (first.kept s a t ranFirst)

end Silent

end TreeQuery.Run

namespace TreeQuery.Session

variable {σ ε : Type} {wrap : Error → ε} {s : Session σ}

theorem checkCancelled_silent : (checkCancelled wrap : Run σ ε Unit).Silent := by
  apply Run.Silent.get.bind
  intro s
  split
  · exact .fail _
  · exact .pure _

theorem readAll_silent (deliveries : List Delivery) :
    (readAll wrap deliveries : Run σ ε (List Row)).Silent := by
  induction deliveries with
  | nil => exact checkCancelled_silent.bind (fun _ => .pure _)
  | cons delivery rest inductionHypothesis =>
    apply checkCancelled_silent.bind
    intro _
    apply (Run.Silent.cancelIf _).bind
    intro _
    apply (Run.Silent.ofExcept _ _).bind
    intro row
    exact inductionHypothesis.bind (fun _ => .pure _)

theorem receive_silent (a : Answer) : (receive wrap a : Run σ ε (List Row)).Silent := by
  cases a with
  | failed e cancels => exact (Run.Silent.cancelIf _).bind (fun _ => .fail _)
  | hung => exact (Run.Silent.cancelIf _).bind (fun _ => .hang)
  | rows cancels deliveries => exact (Run.Silent.cancelIf _).bind (fun _ => readAll_silent _)

/-- A statement whose rows were read has reached the database once. -/
theorem query_issued {d : Driver σ} {q : Sql.Query} {rows : List Row} {s' : Session σ}
    (queried : query d wrap q s = (.ok rows, s')) : s'.issued = s.issued ++ [q] := by
  obtain ⟨_, s₁, checked, queried⟩ := Run.bind_ok.mp queried
  obtain ⟨answer, s₂, asked, received⟩ := Run.bind_ok.mp queried
  have before := checkCancelled_silent.kept _ _ _ checked
  have after := (receive_silent answer).kept _ _ _ received
  cases asked
  rw [after, before]

theorem checkCancelled_live (live : s.cancelled = false) : checkCancelled wrap s = (.ok (), s) := by
  refine Run.bind_ok.mpr ⟨s, s, rfl, ?_⟩
  rw [live]
  rfl

theorem cancelIf_false (s : Session σ) : (Run.cancelIf false : Run σ ε Unit) s = (.ok (), s) := by
  simp [Run.cancelIf, Run.modify]

/-- Rows that come without an error, and without cancelling the run, are all read. -/
theorem readAll_rows (live : s.cancelled = false) (rows : List Row) :
    readAll wrap (rows.map (fun r => ⟨.ok r, false⟩)) s = (.ok rows, s) := by
  induction rows with
  | nil => exact Run.bind_ok.mpr ⟨(), s, checkCancelled_live live, rfl⟩
  | cons r rows inductionHypothesis =>
    apply Run.bind_ok.mpr ⟨(), s, checkCancelled_live live, ?_⟩
    apply Run.bind_ok.mpr ⟨(), s, cancelIf_false s, ?_⟩
    apply Run.bind_ok.mpr ⟨r, s, rfl, ?_⟩
    exact Run.bind_ok.mpr ⟨rows, s, inductionHypothesis, rfl⟩

variable (wrap) in
theorem query_rows {d : Driver σ} {q : Sql.Query} (rows : List Row) (live : s.cancelled = false)
    (answered : (d.answer q s.driver).1 = .rows false (rows.map (fun r => ⟨.ok r, false⟩))) :
    ∃ s', query d wrap q s = (.ok rows, s') ∧ s'.cancelled = false := by
  let next : Session σ := ⟨(d.answer q s.driver).2, s.cancelled, s.issued ++ [q]⟩
  have still : next.cancelled = false := live
  refine ⟨next, ?_, still⟩
  apply Run.bind_ok.mpr ⟨(), s, checkCancelled_live live, ?_⟩
  apply Run.bind_ok.mpr ⟨_, next, rfl, ?_⟩
  rw [answered]
  exact Run.bind_ok.mpr ⟨(), next, cancelIf_false next, readAll_rows still rows⟩

end TreeQuery.Session
