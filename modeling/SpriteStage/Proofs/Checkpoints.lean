import SpriteStage.Engine
import SpriteStage.Proofs.Conduct
/-! # Runs with their checkpoints -/
namespace SpriteStage

variable {α : Type} [Scalar α]

namespace Leaf

theorem start_plan {w : World α} {a : Actor α} {i : Instruction α}
    {plan : Except Error (Motion α × α)} (h : Motion.plan? w.settings.confine a i = some plan) (room : Nat)
    (now : α) : start w room now a i =
      plan.map fun p => ofMotion w room now a.id p.1 (w.settings.scaled p.2) := by
  cases i with
  | move steps =>
    cases h
    simp only [start]
    cases steps.toScalar <;> rfl
  | turn degrees =>
    cases h
    simp only [start]
    cases degrees.toScalar <;> rfl
  | goto x y =>
    cases h
    simp only [start]
    cases x.toScalar with
    | error cause => rfl
    | ok x => cases y.toScalar <;> rfl
  | resize change =>
    cases h
    simp only [start]
    cases change.toScalar with
    | error cause => rfl
    | ok x =>
      cases a.extent with
      | error cause => rfl
      | ok extent =>
        cases hsize : extent.toScalar <;> simp only [bind, Except.bind, hsize] <;> rfl
  | wait _ | say _ _ | recolour _ | loop _ => cases h

private theorem ofMotionGuarded_false (w : World α) (room : Nat) (now : α) (actor : Int) (m : Motion α)
    (seconds : α) :
    ofMotionGuarded false w room now actor m seconds = some (ofMotion w room now actor m seconds) := by
  simp only [ofMotionGuarded, ofMotion]
  split
  · simp only [Bool.false_eq_true, if_false]
    cases m.frame w room actor Scalar.one <;> rfl
  · split
    · rfl
    · rfl

private theorem startGuarded_false (w : World α) (room : Nat) (now : α) (a : Actor α) (i : Instruction α) :
    startGuarded false w room now a i = (start w room now a i).map some := by
  unfold startGuarded
  split
  · rename_i plan hplan
    rw [start_plan hplan]
    cases plan with
    | error cause => rfl
    | ok p => exact congrArg Except.ok (ofMotionGuarded_false w room now a.id p.1 _)
  · cases start w room now a i <;> rfl

private theorem beginGuarded_false (w : World α) (room : Nat) (now : α) (actor : Int) (i : Instruction α) :
    beginGuarded false w room now actor i = some (begin w room now actor i) := by
  have hget : ∀ i : Instruction α,
      (w.store.get actor).bind (startGuarded false w room now · i) =
        ((w.store.get actor).bind (start w room now · i)).map some := by
    intro i
    cases w.store.get actor with
    | error cause => rfl
    | ok a => exact startGuarded_false w room now a i
  unfold beginGuarded begin
  cases i with
  | wait seconds =>
    dsimp only
    cases rest w room seconds <;> rfl
  | _ =>
    dsimp only
    rw [hget]
    cases (w.store.get actor).bind _ <;> rfl

private theorem wakeGuarded_false (w : World α) (room : Nat) (now : α) (actor : Int) (pause : Pause α) :
    wakeGuarded false w room now actor pause = some (wake w room now actor pause) := by
  cases pause with
  | rest => rfl
  | bubble => rfl
  | frame m span =>
    simp only [wakeGuarded, wake, Bool.false_eq_true, if_false]
    cases m.frame w room actor (span.progress now) with
    | error cause => rfl
    | ok done =>
      dsimp only
      split
      · rfl
      · rfl

/-- A run that was asked to stop looks at once when it wakes, whatever it has slept for. -/
theorem wakeGuarded_true (w : World α) (room : Nat) (now : α) (actor : Int) (pause : Pause α) :
    wakeGuarded true w room now actor pause = none := by
  cases pause with
  | rest => rfl
  | bubble => rfl
  | frame m span => rfl

end Leaf

namespace Moment

private theorem dispatch_sequence_unasked (m : Moment α) :
    (∀ (b : Block α) rest loops w, dispatchGuarded false m rest loops w b = dispatch m rest loops w b) ∧
    ∀ (p : Program α) loops w, sequenceGuarded false m loops w p = sequence m loops w p := by
  apply Block.induction
  case block =>
    intro id typeId raw children ih rest loops w
    rw [dispatchGuarded, dispatch]
    dsimp only
    cases inputs? w typeId raw with
    | none => rfl
    | some resolved =>
      obtain ⟨notices, resolved⟩ := resolved
      dsimp only
      generalize (if notices.isEmpty then readSteps else fallbackSteps) = steps
      split
      · rfl
      · cases resolved with
        | error cause => rfl
        | ok inputs =>
          dsimp only
          cases Instruction.ofInputs? typeId inputs with
          | none => rfl
          | some i =>
            cases i with
            | loop times =>
              dsimp only
              cases children with
              | nil => rfl
              | cons b children =>
                cases times with
                | zero => rfl
                | succ left =>
                  dsimp only
                  rw [ih]
            | _ =>
              dsimp only
              rw [Leaf.beginGuarded_false]
              generalize Leaf.begin w (w.roomBelow loops.length) m.now m.actor _ = leaf
              cases leaf <;> rfl
  case nil =>
    intro loops w
    rw [sequenceGuarded, sequence]
  case cons =>
    intro b rest hb hrest loops w
    rw [sequenceGuarded, sequence, hb]
    simp only [Bool.false_eq_true, if_false]
    cases dispatch m rest loops w b with
    | inl activity => rfl
    | inr r =>
      dsimp only
      rw [hrest]

private theorem stepGuarded_false (m : Moment α) (w : World α) : stepGuarded false m w = step m w := by
  simp only [stepGuarded, step, Bool.false_eq_true, if_false]
  cases w.store.get? m.actor with
  | none => rfl
  | some a =>
    dsimp only
    cases a.program[m.index]? with
    | none => rfl
    | some block =>
      dsimp only
      cases w.write m.actor { stepIndex := some (.int m.index) } with
      | error cause => rfl
      | ok done =>
        dsimp only
        simp only [(dispatch_sequence_unasked m).1, sequence]
        cases dispatch m [] [] done.1 block with
        | inl activity => rfl
        | inr r => simp [Activity.after]

private theorem nextGuarded_false (m : Moment α) (w : World α) (loops : List (Loop α)) :
    nextGuarded false m w loops = next m w loops := by
  cases loops with
  | nil => exact stepGuarded_false _ w
  | cons l loops =>
    simp only [nextGuarded, next]
    cases l.left with
    | zero => exact (dispatch_sequence_unasked m).2 _ _ _
    | succ left => exact (dispatch_sequence_unasked m).2 _ _ _

end Moment

namespace Place

private theorem resumeGuarded_false (now : α) (actor : Int) (w : World α) (place : Place α) :
    place.resumeGuarded false now actor w = place.resume now actor w := by
  cases place with
  | fresh => exact Moment.stepGuarded_false _ w
  | asleep pause rest loops index =>
    simp only [resumeGuarded, resume]
    rw [Leaf.wakeGuarded_false]
    cases Leaf.wake w (w.roomBelow loops.length) now actor pause with
    | finished w out =>
      dsimp only
      rw [(Moment.dispatch_sequence_unasked _).2]
    | sleeping w out seconds pause => rfl
    | failed w out => rfl
  | turn loops index =>
    simp only [resumeGuarded, resume, Bool.false_eq_true, if_false]
    cases (w.collide (w.passRoom loops.length)).2.2 with
    | error cause => rfl
    | ok pairs =>
      dsimp only
      rw [Moment.nextGuarded_false]

private theorem resumeGuarded_true (now : α) (actor : Int) (w : World α) (place : Place α) :
    place.resumeGuarded true now actor w = .stop w := by
  cases place with
  | fresh => rfl
  | asleep pause rest loops index => simp only [resumeGuarded, Leaf.wakeGuarded_true]
  | turn loops index => rfl

end Place

theorem Engine.resume_eq (e : Engine) (w : World α) (now : α) (place : Place α) :
    e.resume w now place = if e.cancelRequested then .stop w else place.resume now e.actor w := by
  unfold resume
  cases e.cancelRequested with
  | false => exact Place.resumeGuarded_false now e.actor w place
  | true => exact Place.resumeGuarded_true now e.actor w place

end SpriteStage
