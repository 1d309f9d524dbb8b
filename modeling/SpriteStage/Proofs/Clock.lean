import SpriteStage.Proofs.Course
/-!
# The clock

Time moves from one waking to the next. If the times on the clock are ordered as numbers are, and
a sleep never ends before it began, then nobody oversleeps: the clock never passes the end of a
sleep, and a sleeper wakes when the clock shows exactly that time.
-/
namespace SpriteStage

/-- Those numbers that can stand on a clock. Among them equal numbers are the same, the order is total,
and adding a sleep to a time gives a time that is not earlier. -/
class Timeline (α : Type) [Scalar α] where
  IsTime : α → Prop
  lt_asymm : ∀ {a b : α}, IsTime a → IsTime b → Scalar.lt a b = true → Scalar.lt b a = false
  le_trans : ∀ {a b c : α}, IsTime a → IsTime b → IsTime c → Scalar.lt b a = false →
    Scalar.lt c b = false → Scalar.lt c a = false
  eq_of_le : ∀ {a b : α}, IsTime a → IsTime b → Scalar.lt a b = false → Scalar.lt b a = false → a = b
  eq_iff : ∀ {a b : α}, IsTime a → IsTime b → (Scalar.eq a b = true ↔ a = b)
  isTime_wakeTime : ∀ {now : α} (seconds : α), IsTime now → IsTime (wakeTime now seconds)
  le_wakeTime : ∀ {now : α} (seconds : α), IsTime now → Scalar.lt (wakeTime now seconds) now = false

namespace Timeline

variable {α : Type} [Scalar α] [Timeline α] {a b : α}

theorem lt_irrefl (h : IsTime a) : Scalar.lt a a = false := by
  cases hlt : Scalar.lt a a with
  | false => rfl
  | true => exact hlt ▸ lt_asymm h h hlt

theorem greatest_of_le (ha : IsTime a) (hb : IsTime b) (h : Scalar.lt b a = false) :
    Scalar.greatest a b = b := by
  unfold Scalar.greatest
  split
  · rfl
  · rename_i hlt
    exact eq_of_le ha hb (by simpa using hlt) h

private theorem least_spec (ha : IsTime a) (hb : IsTime b) :
    (Scalar.least a b = a ∨ Scalar.least a b = b) ∧ Scalar.lt a (Scalar.least a b) = false ∧
      Scalar.lt b (Scalar.least a b) = false := by
  unfold Scalar.least
  split
  · rename_i hlt
    exact ⟨.inr rfl, lt_asymm hb ha hlt, lt_irrefl hb⟩
  · rename_i hlt
    exact ⟨.inl rfl, lt_irrefl ha, by simpa using hlt⟩

private theorem foldl_least {sleepers : List (Sleeper α)} (first : α) (hfirst : IsTime first)
    (h : ∀ x ∈ sleepers, IsTime x.wake) :
    IsTime (sleepers.foldl (fun w x => Scalar.least w x.wake) first) ∧
    (sleepers.foldl (fun w x => Scalar.least w x.wake) first = first ∨
      ∃ x ∈ sleepers, x.wake = sleepers.foldl (fun w x => Scalar.least w x.wake) first) ∧
    Scalar.lt first (sleepers.foldl (fun w x => Scalar.least w x.wake) first) = false ∧
    ∀ x ∈ sleepers,
      Scalar.lt x.wake (sleepers.foldl (fun w x => Scalar.least w x.wake) first) = false := by
  induction sleepers generalizing first with
  | nil => exact ⟨hfirst, .inl rfl, lt_irrefl hfirst, by simp⟩
  | cons x sleepers ih =>
    have hx : IsTime x.wake := h x (by simp)
    obtain ⟨hsame, hle, hxle⟩ := least_spec hfirst hx
    have hnext : IsTime (Scalar.least first x.wake) := by
      rcases hsame with heq | heq
      · rw [heq]
        exact hfirst
      · rw [heq]
        exact hx
    obtain ⟨htime, hmem, hbelow, hall⟩ := ih _ hnext fun y hy => h y (by simp [hy])
    simp only [List.foldl_cons]
    refine ⟨htime, ?_, le_trans htime hnext hfirst hbelow hle, ?_⟩
    · rcases hmem with hmem | ⟨y, hy, hwake⟩
      · rcases hsame with heq | heq
        · exact .inl (hmem.trans heq)
        · exact .inr ⟨x, by simp, heq.symm.trans hmem.symm⟩
      · exact .inr ⟨y, by simp [hy], hwake⟩
    · intro y hy
      rcases List.mem_cons.mp hy with rfl | hy
      · exact le_trans htime hnext hx hbelow hxle
      · exact hall y hy

end Timeline

namespace Stage

open Timeline

variable {α : Type} [Scalar α]

theorem tick?_isNone {s : Stage α} {h : Horizon α} (hnone : (s.tick? h).isNone) :
    s.ready = [] ∧ ∀ time, s.nextWake = some time → h.admits time = false := by
  unfold tick? at hnone
  dsimp only at hnone
  split at hnone
  · simp at hnone
  · rename_i hready
    refine ⟨hready, ?_⟩
    intro time hnext
    have hnext' : s.retire.nextWake = some time := hnext
    rw [hnext'] at hnone
    simpa using hnone

private theorem finish_sleepers (s : Stage α) (t : Task α) (outcome : Phase) :
    (s.finish t outcome).1.now = s.now ∧ (s.finish t outcome).1.sleepers = s.sleepers := by
  have hsettle : (s.settle t.engine outcome).1.now = s.now ∧
      (s.settle t.engine outcome).1.sleepers = s.sleepers := by
    unfold settle
    split <;> exact ⟨rfl, rfl⟩
  unfold finish
  dsimp only
  split
  · exact hsettle
  · split
    · exact hsettle
    · exact hsettle

/-- A turn leaves the clock alone and sends at most its own task to sleep. -/
theorem resume_sleepers (s : Stage α) (t : Task α) :
    (s.resume t).1.now = s.now ∧
    ((s.resume t).1.sleepers = s.sleepers ∨
      ∃ seconds place,
        (s.resume t).1.sleepers = s.sleepers ++ [⟨wakeTime s.now seconds, { t with place }⟩]) := by
  unfold resume
  split
  · exact ⟨rfl, .inl rfl⟩
  · dsimp only
    split
    · exact ⟨rfl, .inr ⟨_, _, rfl⟩⟩
    · exact ⟨rfl, .inl rfl⟩
    · obtain ⟨hnow, hsleepers⟩ := finish_sleepers { s with world := _ } t _
      exact ⟨hnow, .inl hsleepers⟩

variable [Timeline α]

/-- A stage whose clock shows a time that no sleeper has missed. -/
structure Punctual (s : Stage α) : Prop where
  now : IsTime s.now
  wakes : ∀ x ∈ s.sleepers, IsTime x.wake ∧ Scalar.lt x.wake s.now = false

namespace Punctual

variable {s : Stage α}

theorem nextWake (h : s.Punctual) {time : α} (hnext : s.nextWake = some time) :
    (∃ x ∈ s.sleepers, x.wake = time) ∧ IsTime time ∧
      ∀ x ∈ s.sleepers, Scalar.lt x.wake time = false := by
  unfold Stage.nextWake at hnext
  split at hnext
  · cases hnext
  · rename_i first rest hsleepers
    cases hnext
    have htimes : ∀ x ∈ first :: rest, IsTime x.wake := fun x hx => (h.wakes x (hsleepers ▸ hx)).1
    have hrest : ∀ x ∈ rest, IsTime x.wake := fun x hx => htimes x (by simp [hx])
    obtain ⟨htime, hmem, hbelow, hall⟩ := foldl_least first.wake (htimes first (by simp)) hrest
    rw [hsleepers]
    refine ⟨?_, htime, ?_⟩
    · rcases hmem with hmem | ⟨x, hx, hwake⟩
      · exact ⟨first, by simp, hmem.symm⟩
      · exact ⟨x, by simp [hx], hwake⟩
    · intro x hx
      rcases List.mem_cons.mp hx with rfl | hx
      · exact hbelow
      · exact hall x hx

theorem wakeAt_now (h : s.Punctual) {time : α} (hnext : s.nextWake = some time) :
    (s.wakeAt time).now = time := by
  obtain ⟨⟨x, hx, rfl⟩, htime, -⟩ := h.nextWake hnext
  exact greatest_of_le h.now htime (h.wakes x hx).2

private theorem resume (h : s.Punctual) (t : Task α) : (s.resume t).1.Punctual := by
  obtain ⟨hnow, hsleepers⟩ := resume_sleepers s t
  refine ⟨hnow ▸ h.now, ?_⟩
  intro x hx
  rw [hnow]
  rcases hsleepers with hsame | ⟨seconds, place, hmore⟩
  · exact h.wakes x (hsame ▸ hx)
  · rw [hmore] at hx
    rcases List.mem_append.mp hx with hx | hx
    · exact h.wakes x hx
    · rw [List.mem_singleton.mp hx]
      exact ⟨isTime_wakeTime seconds h.now, le_wakeTime seconds h.now⟩

/-- No beat lets a sleeper miss its time, as long as the clock is set to times. -/
theorem beat (h : s.Punctual) {b : Beat α} (hb : ∀ time, b = .clock time → IsTime time) :
    (s.beat b).1.Punctual := by
  cases b with
  | retire => exact ⟨h.now, h.wakes⟩
  | turn =>
    simp only [Stage.beat]
    split
    · exact h
    · rename_i t rest hready
      exact Punctual.resume (s := { s with ready := rest }) ⟨h.now, h.wakes⟩ t
  | wake =>
    simp only [Stage.beat]
    split
    · rename_i time hready hnext
      obtain ⟨-, htime, hall⟩ := h.nextWake hnext
      refine ⟨(h.wakeAt_now hnext).symm ▸ htime, ?_⟩
      intro x hx
      have hmem : x ∈ s.sleepers := (List.mem_filter.mp hx).1
      rw [h.wakeAt_now hnext]
      exact ⟨(h.wakes x hmem).1, hall x hmem⟩
    · exact h
  | clock time =>
    have htime := hb time rfl
    simp only [Stage.beat]
    split
    · rename_i hidle
      obtain ⟨-, hlater⟩ := tick?_isNone hidle
      refine ⟨htime, ?_⟩
      intro x hx
      refine ⟨(h.wakes x hx).1, ?_⟩
      -- The clock is set only if the next sleeper wakes later, and all others wake even later.
      cases hnext : s.nextWake with
      | none =>
        unfold Stage.nextWake at hnext
        split at hnext
        · rename_i hnobody
          simp [hnobody] at hx
        · cases hnext
      | some first =>
        obtain ⟨-, hfirst, hall⟩ := h.nextWake hnext
        have hlt : Scalar.lt first time = false := by
          have hbeyond := hlater first hnext
          simp only [Horizon.admits, Scalar.le, Bool.or_eq_false_iff] at hbeyond
          exact hbeyond.1
        exact le_trans htime hfirst (h.wakes x hx).1 hlt (hall x hx)
    · exact h

end Punctual

end Stage

end SpriteStage
