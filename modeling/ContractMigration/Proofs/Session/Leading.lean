import ContractMigration.Proofs.Session.Moves

/-! Whoever leads a session makes moves. Turns of callers, rounds, alarms and waiting for answers take computations further
one move at a time, and nothing else is done with the cache. -/

namespace ContractMigration.Session

variable {I : Interface} {α : Type} [Staged α] (call : Session I α → Key → Stage → Ticket α × Session I α)

/-- Moves can be made that lead from one session to another. -/
def LeadsTo (s s' : Session I α) : Prop := ∃ moves, (play call moves s).2 = s'

namespace LeadsTo

variable {call} {s s' s'' : Session I α}

theorem refl (s : Session I α) : LeadsTo call s s := ⟨[], rfl⟩

theorem trans (h : LeadsTo call s s') (h' : LeadsTo call s' s'') : LeadsTo call s s'' := by
  obtain ⟨p, rfl⟩ := h
  obtain ⟨q, rfl⟩ := h'
  refine ⟨p ++ q, ?_⟩
  induction p generalizing s with
  | nil => rfl
  | cons a rest ih => exact ih

theorem move (s : Session I α) (a : Move I α) : LeadsTo call s (s.moved call a).2 := ⟨[a], rfl⟩

end LeadsTo

theorem moved_go {s : Session I α} {id : ℕ} {f : Flight I α} (hf : s.flight? id = some f)
    (answer : (q : I.Query) → Response (I.Answer q)) : s.moved call (.go id answer) = s.advance call f answer := by
  rw [moved, hf]

variable {σ : Type} (x : Setting I α σ)

theorem leadsTo_drive (fuel id : ℕ) (sw : Session I α × σ) : LeadsTo x.call sw.1 (drive x fuel id sw).1 := by
  induction fuel generalizing id sw with
  | zero => exact .refl _
  | succ fuel ih =>
    obtain ⟨s, w⟩ := sw
    rw [drive]
    rcases hf : s.flight? id with _ | f
    · exact .refl _
    · obtain rfl : f.computation.id = id := by simpa using List.find?_some hf
      have hgo : LeadsTo x.call s (s.advance x.call f fun q => (x.answer w q).1).2 := by
        rw [← moved_go x.call hf]
        exact .move s _
      have hon : ∀ {s' : Session I α} {i : ℕ} {w' : σ}, LeadsTo x.call s s' →
          LeadsTo x.call s (drive x fuel i (s', w')).1 := fun h => h.trans (ih _ (_, _))
      rw [advance] at hgo
      dsimp only
      cases hpos : f.position with
      | active r =>
        rw [hpos] at hgo
        cases r with
        | done r => exact hgo
        | ask q next =>
          dsimp only at hgo ⊢
          rcases ha : x.answer w q with ⟨a | ⟨wait, a⟩ | _, w'⟩ <;> rw [ha] at hgo
          · exact hon hgo
          · exact hgo
          · exact .refl _
        | await k st next =>
          dsimp only at hgo ⊢
          rcases hc : x.call s k st with ⟨r | other, s'⟩ <;> rw [hc] at hgo <;> exact hon hgo
        | peek k st next => exact hon hgo
        | pause next => exact hgo
        | stall => exact .refl _
      | joined other next =>
        rw [hpos] at hgo
        dsimp only at hgo ⊢
        rcases hr : s.result? other with _ | r <;> rw [hr] at hgo
        · dsimp only
          split_ifs
          · exact hon (ih other (s, w))
          · exact ih other (s, w)
        · exact hon hgo
      | paused round r =>
        rw [hpos] at hgo
        dsimp only
        split_ifs
        · exact hon hgo
        · exact .refl _
      | asleep due r =>
        rw [hpos] at hgo
        dsimp only
        split_ifs
        · exact hon hgo
        · exact .refl _

theorem leadsTo_attend (s : Session I α) (callers : List (Caller α)) (rung round : ℕ) :
    LeadsTo call s { s with callers := callers, rung := rung, round := round } := .move s (.attend callers rung round)

theorem leadsTo_until (s : Session I α) (time : ℕ) : LeadsTo call s { s with now := max s.now time } := by
  have hmax : max s.now time = s.now + (time - s.now) := by omega
  rw [hmax]
  exact .move s (.wait (time - s.now))

theorem leadsTo_wake (s : Session I α) (time : ℕ) : LeadsTo call s (s.wake time) :=
  (leadsTo_until call s time).trans (leadsTo_attend call _ s.callers (max s.now time) (s.round + 1))

theorem leadsTo_receive (s : Session I α) (name : String) (k : Key) (st : Stage) :
    LeadsTo call s (s.receive name st fun s => call s k st) :=
  (LeadsTo.move s (.ask k st)).trans (leadsTo_attend call _ _ _ _)

theorem leadsTo_turn (fuel : ℕ) (name : String) (sw : Session I α × σ) :
    LeadsTo x.call sw.1 (turn x fuel name sw).1 := by
  unfold turn
  split
  · exact (leadsTo_drive x fuel _ sw).trans (leadsTo_attend x.call _ _ _ _)
  · exact .refl _

theorem leadsTo_turns (fuel : ℕ) (names : List String) (sw : Session I α × σ) :
    LeadsTo x.call sw.1 (turns x fuel names sw).1 := by
  induction names generalizing sw with
  | nil => exact .refl _
  | cons name rest ih => exact (leadsTo_turn x fuel name sw).trans (ih _)

theorem leadsTo_exhaust (fuel : ℕ) (but : List String) (n : ℕ) (sw : Session I α × σ) :
    LeadsTo x.call sw.1 (exhaust x fuel but n sw).1 := by
  induction n generalizing sw with
  | zero => exact .refl _
  | succ n ih =>
    have hturns := leadsTo_turns x fuel (sw.1.waiting.filter fun name => !but.contains name) sw
    rw [exhaust]
    split_ifs
    · exact hturns
    · exact hturns.trans (ih _)

theorem leadsTo_passUntil (fuel time n : ℕ) (sw : Session I α × σ) :
    LeadsTo x.call sw.1 (passUntil x fuel time n sw).1 := by
  induction n generalizing sw with
  | zero => exact .refl _
  | succ n ih =>
    have hexhaust := leadsTo_exhaust x fuel [] fuel sw
    rw [passUntil]
    split_ifs
    · exact .refl _
    · dsimp only
      split
      · exact (hexhaust.trans (leadsTo_wake x.call _ _)).trans (ih (_, _))
      · exact hexhaust.trans (leadsTo_wake x.call _ _)

theorem leadsTo_jump (fuel time : ℕ) (sw : Session I α × σ) : LeadsTo x.call sw.1 (jump x fuel time sw).1 :=
  ((leadsTo_until x.call sw.1 time).trans (leadsTo_exhaust x fuel [] fuel (_, sw.2))).trans
    (leadsTo_attend x.call _ _ _ _)

theorem leadsTo_passUntilAnswered (fuel : ℕ) (names inFront : List String) (n : ℕ) (sw : Session I α × σ) :
    LeadsTo x.call sw.1 (passUntilAnswered x fuel names inFront n sw).1 := by
  induction n generalizing sw with
  | zero => exact .refl _
  | succ n ih =>
    have hexhaust := leadsTo_exhaust x fuel inFront fuel sw
    rw [passUntilAnswered]
    split_ifs
    · exact .refl _
    · dsimp only
      split_ifs
      · exact hexhaust
      · split
        · exact ((hexhaust.trans (leadsTo_wake x.call _ _)).trans (leadsTo_turns x fuel inFront (_, _))).trans (ih _)
        · exact hexhaust

theorem leadsTo_post (fuel : ℕ) (name : String) (k : Key) (st : Stage) (sw : Session I α × σ) :
    LeadsTo x.call sw.1 (post x fuel name k st sw).1 :=
  (leadsTo_exhaust x fuel [] fuel sw).trans (leadsTo_receive x.call _ name k st)

theorem leadsTo_ask (fuel : ℕ) (name : String) (k : Key) (st : Stage) (sw : Session I α × σ) :
    LeadsTo x.call sw.1 (ask x fuel name k st sw).1 :=
  (leadsTo_receive x.call sw.1 name k st).trans (leadsTo_turn x fuel name (_, sw.2))

end ContractMigration.Session
