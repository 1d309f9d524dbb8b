import SpriteStage.Proofs.Ownership
/-!
# A run alone in the world

A run sees the settings, the catalog and the record of its own actor. In the world in which all
other actors are gone it therefore does the same, step for step: taking the others away before a
resumption or after it comes to the same.
-/
namespace SpriteStage

variable {α : Type}

/-- The world of one actor, as if it were alone. -/
def World.solo (actor : Int) (w : World α) : World α :=
  { w with
    store := { w.store with actors := (w.store.get? actor).toList }
    touching := [] }

namespace World

variable {actor : Int} {w w' : World α}

@[simp]
theorem get?_solo (actor : Int) (w : World α) : (w.solo actor).store.get? actor = w.store.get? actor := by
  cases h : w.store.get? actor with
  | none =>
    simp only [solo, h]
    simp [Store.get?]
  | some a =>
    have hid := Store.get?_id h
    simp only [solo, h]
    simp [Store.get?, hid]

theorem solo_congr (hframe : SameFrame w w') (h : w'.store.get? actor = w.store.get? actor) :
    w'.solo actor = w.solo actor := by
  simp only [solo, h, hframe.settings, hframe.catalog, hframe.room, hframe.runRoom, hframe.nextId]

private theorem solo_replace {a b : Actor α} (ha : w.store.get? actor = some a) (hb : b.id = actor) :
    solo actor { w with store := w.store.replace b } =
      { w.solo actor with store := (w.solo actor).store.replace b } := by
  have hid := Store.get?_id ha
  have hget : (w.store.replace b).get? actor = some b := by
    rw [Store.get?_replace, if_pos hb.symm, ha]
    rfl
  simp only [solo, hget, ha]
  simp [Store.replace, hid, hb]

variable [Scalar α]

def soloed (actor : Int) (r : World α × List (Signal α)) : World α × List (Signal α) :=
  (r.1.solo actor, r.2)

theorem write_solo (actor : Int) (w : World α) (p : Patch α) :
    (w.solo actor).write actor p = (w.write actor p).map (soloed actor) := by
  cases h : w.store.get? actor with
  | none =>
    have hnone : (w.solo actor).store.get? actor = none := by rw [get?_solo, h]
    simp only [write, Store.write, Store.get, h, hnone]
    rfl
  | some a =>
    have hsolo : (w.solo actor).store.get? actor = some a := by rw [get?_solo, h]
    rw [write_of_get? h, write_of_get? hsolo]
    have hid : a.id = actor := Store.get?_id h
    simp only [Except.map, soloed]
    rw [solo_replace h (by exact hid)]
    rfl

private theorem glide_solo (actor : Int) (w : World α) (point : Point α) :
    (w.solo actor).glide actor point = (w.glide actor point).map (soloed actor) := by
  cases h : w.store.get? actor with
  | none =>
    have hnone : (w.solo actor).store.get? actor = none := by rw [get?_solo, h]
    simp only [glide, Store.extendTrail, Store.get, h, hnone]
    rfl
  | some a =>
    have hsolo : (w.solo actor).store.get? actor = some a := by rw [get?_solo, h]
    rw [glide_eq_ok.mpr ⟨a, h, rfl, rfl⟩, glide_eq_ok.mpr ⟨a, hsolo, rfl, rfl⟩]
    have hid : a.id = actor := Store.get?_id h
    simp only [Except.map, soloed]
    rw [solo_replace h (by exact hid)]
    rfl

private theorem collide_solo (actor : Int) (w : World α) (room : Nat) :
    (w.solo actor).collide room = (w.solo actor, [], .ok []) := by
  have hnobody : Collision.overlapping Actor.collides (w.solo actor).store.actors = .ok [] := by
    simp only [solo]
    cases w.store.get? actor with
    | none => rfl
    | some a => rfl
  simp only [collide, collideWith, Collision.passWith, hnobody]
  rfl

/-- A pass that swaps nobody leaves the world of each actor as it was. -/
theorem solo_collide {room : Nat} (h : (w.collide room).2.2 = .ok []) (actor : Int) :
    (w.collide room).1.solo actor = w.solo actor ∧ (w.collide room).2.1 = [] := by
  obtain ⟨hstore, hsilent⟩ := Collision.passWith_nil h
  refine ⟨?_, hsilent⟩
  apply solo_congr (frame_collide w room)
  change ((Collision.passWith _ _ _ _ _).store).get? actor = _
  rw [hstore]

end World

variable [Scalar α]

namespace Leaf

def solo (actor : Int) : Leaf α → Leaf α
  | .finished w out => .finished (w.solo actor) out
  | .sleeping w out seconds pause => .sleeping (w.solo actor) out seconds pause
  | .failed w out => .failed (w.solo actor) out

end Leaf

private theorem Motion.frame_solo (m : Motion α) (w : World α) (room : Nat) (actor : Int) (progress : α) :
    m.frame (w.solo actor) room actor progress =
      (m.frame w room actor progress).map (World.soloed actor) := by
  unfold frame
  cases descend room frameSteps with
  | error cause => rfl
  | ok _ =>
    cases m.easing.apply progress with
    | error cause => rfl
    | ok t =>
      change m.draw (w.solo actor) actor t = (m.draw w actor t).map (World.soloed actor)
      cases m with
      | glide start stop => exact World.glide_solo actor w _
      | turn start degrees => exact World.write_solo actor w _
      | resize start stop => exact World.write_solo actor w _

namespace Leaf

omit [Scalar α] in
theorem ofWrite_solo (actor : Int) (w : World α) (written : Except Error (World α × List (Signal α))) :
    ofWrite (w.solo actor) (written.map (World.soloed actor)) = (ofWrite w written).solo actor := by
  cases written with
  | error cause => rfl
  | ok done => rfl

private theorem ofMotion_solo (w : World α) (room : Nat) (now : α) (actor : Int) (m : Motion α) (seconds : α) :
    ofMotion (w.solo actor) room now actor m seconds =
      (ofMotion w room now actor m seconds).solo actor := by
  unfold ofMotion
  split
  · rw [Motion.frame_solo, ofWrite_solo]
  · split
    · rfl
    · rfl

private theorem rest_solo (actor : Int) (w : World α) (room : Nat) (seconds : Number α) :
    rest (w.solo actor) room seconds = (rest w room seconds).map (solo actor) := by
  unfold rest
  cases descend room sleepSteps with
  | error cause => rfl
  | ok _ =>
    cases seconds.toScalar with
    | error cause => rfl
    | ok x => rfl

private theorem start_solo (w : World α) (room : Nat) (now : α) (a : Actor α) (i : Instruction α) :
    start (w.solo a.id) room now a i = (start w room now a i).map (solo a.id) := by
  cases i with
  | move steps =>
    simp only [start]
    cases steps.toScalar with
    | error cause => rfl
    | ok x => exact congrArg Except.ok (ofMotion_solo w room now a.id _ _)
  | turn degrees =>
    simp only [start]
    cases degrees.toScalar with
    | error cause => rfl
    | ok x => exact congrArg Except.ok (ofMotion_solo w room now a.id _ _)
  | goto x y =>
    simp only [start]
    cases x.toScalar with
    | error cause => rfl
    | ok x =>
      cases y.toScalar with
      | error cause => rfl
      | ok y => exact congrArg Except.ok (ofMotion_solo w room now a.id _ _)
  | wait seconds => exact rest_solo a.id w room seconds
  | say message seconds =>
    simp only [start]
    cases seconds.toScalar with
    | error cause => rfl
    | ok x =>
      cases descend room messageSteps with
      | error cause => rfl
      | ok _ =>
        simp only [World.write_solo]
        cases w.write a.id { message := some (.text message) } with
        | error cause => rfl
        | ok done => rfl
  | resize change =>
    simp only [start]
    cases change.toScalar with
    | error cause => rfl
    | ok x =>
      cases a.extent with
      | error cause => rfl
      | ok extent =>
        cases hsize : extent.toScalar with
        | error cause => simp only [bind, Except.bind, hsize]; rfl
        | ok size =>
          simp only [bind, Except.bind, hsize]
          exact congrArg Except.ok (ofMotion_solo w room now a.id _ _)
  | recolour index =>
    simp only [start]
    cases descend room lookSteps with
    | error cause => rfl
    | ok _ =>
      rw [World.write_solo]
      exact congrArg Except.ok (ofWrite_solo a.id w _)
  | loop times => rfl

private theorem begin_solo (w : World α) (room : Nat) (now : α) (actor : Int) (i : Instruction α) :
    begin (w.solo actor) room now actor i = (begin w room now actor i).solo actor := by
  have hstart : ((w.solo actor).store.get actor).bind (start (w.solo actor) room now · i) =
      ((w.store.get actor).bind (start w room now · i)).map (solo actor) := by
    have hget : (w.solo actor).store.get actor = w.store.get actor := by
      simp only [Store.get, World.get?_solo]
    rw [hget]
    cases ha : w.store.get actor with
    | error cause => rfl
    | ok a =>
      have hid : a.id = actor := Store.get?_id (Store.get_eq_ok.mp ha)
      subst hid
      exact start_solo w room now a i
  unfold begin
  cases i with
  | wait seconds =>
    dsimp only
    rw [rest_solo]
    cases rest w room seconds <;> rfl
  | _ =>
    dsimp only
    rw [hstart]
    cases (w.store.get actor).bind _ <;> rfl

private theorem wake_solo (w : World α) (room : Nat) (now : α) (actor : Int) (pause : Pause α) :
    wake (w.solo actor) room now actor pause = (wake w room now actor pause).solo actor := by
  cases pause with
  | rest => rfl
  | bubble =>
    unfold wake
    cases descend room messageSteps with
    | error cause => rfl
    | ok _ =>
      simp only [Except.bind, World.write_solo]
      exact ofWrite_solo actor w _
  | frame m span =>
    unfold wake
    dsimp only
    rw [Motion.frame_solo]
    cases m.frame w room actor (span.progress now) with
    | error cause => rfl
    | ok done =>
      simp only [Except.map]
      split
      · rfl
      · rfl

end Leaf

def Activity.solo (actor : Int) (a : Activity α) : Activity α :=
  { a with world := a.world.solo actor }

namespace Moment

def passedSolo (actor : Int) :
    Activity α ⊕ World α × List (Signal α) → Activity α ⊕ World α × List (Signal α)
  | .inl a => .inl (a.solo actor)
  | .inr r => .inr (World.soloed actor r)

private theorem dispatch_sequence_solo (m : Moment α) :
    (∀ (b : Block α) rest loops w,
      dispatch m rest loops (w.solo m.actor) b = passedSolo m.actor (dispatch m rest loops w b)) ∧
    ∀ (p : Program α) loops w,
      sequence m loops (w.solo m.actor) p = (sequence m loops w p).solo m.actor := by
  apply Block.induction
  case block =>
    intro id typeId raw children ih rest loops w
    have hinputs : inputs? (w.solo m.actor) typeId raw = inputs? w typeId raw := rfl
    have hroom : (w.solo m.actor).roomBelow loops.length = w.roomBelow loops.length := rfl
    rw [dispatch, dispatch]
    dsimp only
    rw [hinputs, hroom]
    cases inputs? w typeId raw with
    | none =>
      dsimp only
      split
      · rfl
      · rfl
    | some resolved =>
      obtain ⟨notices, resolved⟩ := resolved
      dsimp only
      generalize (if notices.isEmpty then readSteps else fallbackSteps) = steps
      split
      · rfl
      · cases resolved with
        | error cause => rfl
        | ok inputs =>
          dsimp only
          cases Instruction.ofInputs? typeId inputs with
          | none => rfl
          | some i =>
            cases i with
            | loop times =>
              dsimp only
              cases children with
              | nil => rfl
              | cons b children =>
                cases times with
                | zero => rfl
                | succ left =>
                  dsimp only
                  rw [ih]
                  rfl
            | _ =>
              dsimp only
              rw [Leaf.begin_solo]
              generalize Leaf.begin w (w.roomBelow loops.length) m.now m.actor _ = leaf
              cases leaf <;> rfl
  case nil =>
    intro loops w
    rw [sequence, sequence]
    rfl
  case cons =>
    intro b rest hb hrest loops w
    rw [sequence, sequence, hb]
    cases dispatch m rest loops w b with
    | inl activity => rfl
    | inr r =>
      simp only [passedSolo, World.soloed]
      rw [hrest]
      rfl

private theorem sequence_solo (m : Moment α) (loops : List (Loop α)) (w : World α) (p : Program α) :
    sequence m loops (w.solo m.actor) p = (sequence m loops w p).solo m.actor :=
  (dispatch_sequence_solo m).2 p loops w

private theorem step_solo (m : Moment α) (w : World α) :
    step m (w.solo m.actor) = (step m w).solo m.actor := by
  unfold step
  rw [World.get?_solo]
  cases w.store.get? m.actor with
  | none => rfl
  | some a =>
    dsimp only
    cases a.program[m.index]? with
    | none => rfl
    | some block =>
      dsimp only
      rw [World.write_solo]
      cases w.write m.actor { stepIndex := some (.int m.index) } with
      | error cause => rfl
      | ok done =>
        simp only [Except.map, World.soloed]
        rw [sequence_solo]
        rfl

private theorem next_solo (m : Moment α) (w : World α) (loops : List (Loop α)) :
    next m (w.solo m.actor) loops = (next m w loops).solo m.actor := by
  cases loops with
  | nil => exact step_solo { m with index := m.index + 1 } w
  | cons l loops =>
    cases hleft : l.left with
    | zero =>
      simp only [next, hleft]
      exact sequence_solo m _ w _
    | succ left =>
      simp only [next, hleft]
      exact sequence_solo m _ w _

end Moment

namespace Place

/-- A run whose pass swaps nobody does the same alone. -/
theorem resume_solo (now : α) (actor : Int) (w : World α) {place : Place α} (h : place.PassesBy w) :
    place.resume now actor (w.solo actor) = (place.resume now actor w).solo actor := by
  cases place with
  | fresh => exact Moment.step_solo ⟨now, actor, 0⟩ w
  | asleep pause rest loops index =>
    have hroom : (w.solo actor).roomBelow loops.length = w.roomBelow loops.length := rfl
    simp only [Place.resume]
    rw [hroom, Leaf.wake_solo]
    cases Leaf.wake w (w.roomBelow loops.length) now actor pause with
    | finished w₁ out =>
      simp only [Leaf.solo]
      rw [Moment.sequence_solo ⟨now, actor, index⟩]
      rfl
    | sleeping w₁ out seconds pause' => rfl
    | failed w₁ out => rfl
  | turn loops index =>
    obtain ⟨hworld, hsilent⟩ := World.solo_collide h actor
    have hroom : (w.solo actor).passRoom loops.length = w.passRoom loops.length := rfl
    have hnext := Moment.next_solo ⟨now, actor, index⟩ (w.collide (w.passRoom loops.length)).1 loops
    rw [hworld] at hnext
    rw [resume_turn, resume_turn, hroom, World.collide_solo, hsilent]
    simp only [afterPass, PassesBy] at h ⊢
    rw [h]
    dsimp only
    rw [hnext]
    rfl

theorem solo_resume (now : α) {actor other : Int} (hne : other ≠ actor) (w : World α) {place : Place α}
    (h : place.PassesBy w) :
    (place.resume now actor w).world.solo other = w.solo other ∧
      ∀ x ∈ (place.resume now actor w).out, x.Of actor := by
  cases place with
  | fresh =>
    have hown := Moment.step_own ⟨now, actor, 0⟩ w
    exact ⟨World.solo_congr hown.frame (hown.others other hne), hown.signals⟩
  | asleep pause rest loops index =>
    have hown := resume_asleep_own now actor w pause rest loops index
    exact ⟨World.solo_congr hown.frame (hown.others other hne), hown.signals⟩
  | turn loops index =>
    obtain ⟨hworld, hsilent⟩ := World.solo_collide h other
    have hown := afterPass_own now actor loops index (w.collide (w.passRoom loops.length))
    rw [resume_turn, hsilent]
    refine ⟨?_, ?_⟩
    · rw [← hworld]
      exact World.solo_congr hown.frame (hown.others other hne)
    · intro x hx
      rcases List.mem_append.mp hx with hx | hx
      · rw [List.mem_singleton.mp hx]
        rfl
      · exact hown.signals x hx

end Place

end SpriteStage
