import Mathlib.Logic.Function.Iterate
import SpriteStage.Proofs.Checkpoints
import SpriteStage.Proofs.Unrolling
/-!
# What a run comes to

What a program makes of an actor can be read off the program at once, without a clock: every
motion is shown at its end only, messages come and go, and loops repeat their children. No
resumption changes what the run comes to in the end, because a motion overwrites its own frames
and its last frame shows exactly all of it.
-/
namespace SpriteStage

/-- Numbers of which any two can be compared: if neither is smaller, they are the same. -/
class Comparable (α : Type) [Scalar α] : Prop where
  eq_of_not_lt : ∀ {x y : α}, Scalar.lt x y = false → Scalar.lt y x = false → x = y

variable {α : Type}

/-- A record without what passes: the trail of the actor and the marks of a run. -/
def Actor.lasting (a : Actor α) : Actor α :=
  { a with isRunning := .bool false, stepIndex := .null, trail := [] }

@[simp] theorem Actor.id_lasting (a : Actor α) : a.lasting.id = a.id := rfl

@[simp] theorem Actor.program_lasting (a : Actor α) : a.lasting.program = a.program := rfl

/-- What the blocks of a program are read with, and where an actor may go. -/
structure Venue (α : Type) where
  catalog : Catalog α
  confine : Point α → Point α

variable [Scalar α]

namespace Motion

/-- The record after a frame that shows the share `t`. -/
def drawn (confine : Point α → Point α) (m : Motion α) (t : α) (a : Actor α) : Actor α :=
  match m with
  | .glide start stop =>
    { a with position := confine ⟨lerp start.x stop.x t, lerp start.y stop.y t⟩ }
  | .turn start degrees => { a with heading := Scalar.wrap (start + degrees * t) }
  | .resize start stop => { a with size := .real (lerp start stop t) }

/-- The share that the last frame shows. -/
def whole (m : Motion α) : α :=
  match m.easing.apply Scalar.one with
  | .ok t => t
  | .error _ => Scalar.one

def ended (confine : Point α → Point α) (m : Motion α) (a : Actor α) : Actor α :=
  m.drawn confine m.whole a

private theorem drawn_drawn (confine : Point α → Point α) (m : Motion α) (t t' : α) (a : Actor α) :
    m.drawn confine t' (m.drawn confine t a) = m.drawn confine t' a := by
  cases m with
  | glide start stop => rfl
  | turn start degrees => rfl
  | resize start stop => rfl

end Motion

/-- What is made of an actor after the sleep of a block. -/
def Pause.outcome (confine : Point α → Point α) (a : Actor α) : Pause α → Actor α
  | .rest => a
  | .bubble => { a with message := .null }
  | .frame m _ => m.ended confine a

/-- What an instruction that is no loop makes of an actor. -/
def Instruction.outcome (confine : Point α → Point α) (a : Actor α) (i : Instruction α) : Actor α :=
  match Motion.plan? confine a i, i with
  | some (.ok (m, _)), _ => m.ended confine a
  | some (.error _), _ => a
  | none, .say .. => { a with message := .null }
  | none, .recolour index => { a with look := .text (Instruction.lookAt index) }
  | none, _ => a

mutual

def Block.outcome (v : Venue α) : Block α → Actor α → Actor α
  | ⟨_, typeId, raw, children⟩ => fun a =>
    match v.catalog.reading typeId raw with
    | some (.ok inputs) =>
      match Instruction.ofInputs? typeId inputs with
      | some (.loop times) => (Program.outcome v children)^[times] a
      | some i => i.outcome v.confine a
      | none => a
    | _ => a

def Program.outcome (v : Venue α) : List (Block α) → Actor α → Actor α
  | [] => fun a => a
  | b :: rest => fun a => Program.outcome v rest (Block.outcome v b a)

end

/-- What is made of an actor after the pass that a run waits for: by further iterations of the innermost loop,
by what follows it, and so on outwards to the top-level blocks. -/
def outcomeAfter (v : Venue α) (p : Program α) (index : Nat) : List (Loop α) → Actor α → Actor α
  | [], a => Program.outcome v (p.drop (index + 1)) a
  | l :: loops, a =>
    outcomeAfter v p index loops
      (Program.outcome v l.after ((Program.outcome v l.body)^[l.left] a))

/-- What a run of a program that is suspended somewhere still makes of its actor. -/
def Place.outcome (v : Venue α) (p : Program α) (a : Actor α) : Place α → Actor α
  | .fresh => Program.outcome v p a
  | .asleep pause rest loops index =>
    outcomeAfter v p index loops (Program.outcome v rest (pause.outcome v.confine a))
  | .turn loops index => outcomeAfter v p index loops a

def World.venue (w : World α) : Venue α := ⟨w.catalog, w.settings.confine⟩

def World.Lasts (w : World α) (actor : Int) (P : Actor α → Prop) : Prop :=
  ∃ a, w.store.get? actor = some a ∧ P a.lasting

theorem World.SameFrame.venue {w w' : World α} (h : World.SameFrame w w') : w'.venue = w.venue := by
  simp only [World.venue, h.catalog, h.settings]

/-! ## Blocks that are no loops -/

namespace Motion

variable {m : Motion α} {w w' : World α} {room : Nat} {actor : Int} {a : Actor α}
  {out : List (Signal α)}

private theorem draw_lasts {t : α} (ha : w.store.get? actor = some a) (h : m.draw w actor t = .ok (w', out)) :
    w'.Lasts actor (· = m.drawn w.venue.confine t a.lasting) := by
  cases m with
  | glide start stop =>
    have hget := World.get?_glide h actor
    rw [if_pos rfl, ha] at hget
    exact ⟨_, hget, rfl⟩
  | turn start degrees =>
    have hget := World.get?_write h actor
    rw [if_pos rfl, ha] at hget
    exact ⟨_, hget, rfl⟩
  | resize start stop =>
    have hget := World.get?_write h actor
    rw [if_pos rfl, ha] at hget
    exact ⟨_, hget, rfl⟩

private theorem frame_lasts {progress : α} (ha : w.store.get? actor = some a)
    (h : m.frame w room actor progress = .ok (w', out)) :
    ∃ t, m.easing.apply progress = .ok t ∧
      w'.Lasts actor (· = m.drawn w.venue.confine t a.lasting) := by
  obtain ⟨-, -, h⟩ := bind_eq_ok h
  obtain ⟨t, ht, h⟩ := bind_eq_ok h
  exact ⟨t, ht, draw_lasts ha h⟩

private theorem lastFrame_lasts (ha : w.store.get? actor = some a)
    (h : m.frame w room actor Scalar.one = .ok (w', out)) :
    w'.Lasts actor (· = m.ended w.venue.confine a.lasting) := by
  obtain ⟨t, ht, hlasts⟩ := frame_lasts ha h
  have hwhole : m.whole = t := by
    unfold whole
    rw [ht]
  rwa [ended, hwhole]

private theorem frame_ended {progress : α} (ha : w.store.get? actor = some a)
    (h : m.frame w room actor progress = .ok (w', out)) :
    w'.Lasts actor (m.ended w.venue.confine · = m.ended w.venue.confine a.lasting) := by
  obtain ⟨t, -, b, hb, hlast⟩ := frame_lasts ha h
  refine ⟨b, hb, ?_⟩
  rw [hlast]
  exact drawn_drawn _ m t _ _

end Motion

namespace Leaf

/-- A block after which a record is left, or will be left after the sleep. -/
def ComesTo (v : Venue α) (actor : Int) (final : Actor α) : Leaf α → Prop
  | .finished w _ => w.venue = v ∧ w.Lasts actor (· = final)
  | .sleeping w _ _ pause => w.Lasts actor (pause.outcome v.confine · = final)
  | .failed w _ => w.Lasts actor fun _ => True

variable {w : World α} {actor : Int} {a : Actor α}

private theorem ofMotion_comesTo (ha : w.store.get? actor = some a) (room : Nat) (now : α) (m : Motion α)
    (seconds : α) : (ofMotion w room now actor m seconds).ComesTo w.venue actor
      (m.ended w.venue.confine a.lasting) := by
  unfold ofMotion
  split
  · cases hframe : m.frame w room actor Scalar.one with
    | error cause => exact ⟨a, ha, trivial⟩
    | ok done => exact ⟨(Motion.frame_deed hframe).conduct.frame.venue, Motion.lastFrame_lasts ha hframe⟩
  · split
    · exact ⟨a, ha, trivial⟩
    · exact ⟨a, ha, rfl⟩

private theorem start_comesTo (ha : w.store.get? a.id = some a) {room : Nat} (now : α) {i : Instruction α}
    (noLoop : ∀ times, i ≠ .loop times) {leaf : Leaf α} (h : start w room now a i = .ok leaf) :
    leaf.ComesTo w.venue a.id (i.outcome w.venue.confine a.lasting) := by
  have hlasting : Motion.plan? w.venue.confine a.lasting i = Motion.plan? w.settings.confine a i := by
    cases i <;> rfl
  cases hplan : Motion.plan? w.settings.confine a i with
  | some plan =>
    rw [start_plan hplan] at h
    cases plan with
    | error cause => cases h
    | ok p =>
      cases h
      simp only [Instruction.outcome, hlasting, hplan]
      exact ofMotion_comesTo ha room now p.1 _
  | none =>
    cases i with
    | wait seconds =>
      obtain ⟨-, -, h⟩ := bind_eq_ok h
      obtain ⟨x, -, h⟩ := bind_eq_ok h
      cases h
      exact ⟨a, ha, rfl⟩
    | say message seconds =>
      obtain ⟨x, -, h⟩ := bind_eq_ok h
      obtain ⟨-, -, h⟩ := bind_eq_ok h
      obtain ⟨⟨w', out⟩, hw, h⟩ := bind_eq_ok h
      cases h
      have hget := World.get?_write hw a.id
      rw [if_pos rfl, ha] at hget
      exact ⟨_, hget, rfl⟩
    | recolour index =>
      obtain ⟨-, -, h⟩ := bind_eq_ok h
      cases h
      cases hw : w.write a.id { look := some (.text (Instruction.lookAt index)) } with
      | error cause => exact ⟨a, ha, trivial⟩
      | ok done =>
        have hget := World.get?_write hw a.id
        rw [if_pos rfl, ha] at hget
        exact ⟨(World.frame_write hw).venue, _, hget, rfl⟩
    | loop times => exact absurd rfl (noLoop times)
    | move _ | turn _ | goto _ _ | resize _ => cases hplan

private theorem begin_comesTo (ha : w.store.get? actor = some a) (room : Nat) (now : α) {i : Instruction α}
    (noLoop : ∀ times, i ≠ .loop times) : (begin w room now actor i).ComesTo w.venue actor
      (i.outcome w.venue.confine a.lasting) := by
  have hid : a.id = actor := Store.get?_id ha
  subst hid
  unfold begin
  dsimp only
  split
  · rename_i leaf hleaf
    split at hleaf
    · exact start_comesTo ha now noLoop hleaf
    · obtain ⟨a', ha', h⟩ := bind_eq_ok hleaf
      cases ha.symm.trans (Store.get_eq_ok.mp ha')
      exact start_comesTo ha now noLoop h
  · exact ⟨a, ha, trivial⟩

/-- After its sleep a block comes to the same as before. The frames end only where all of the time has passed,
because numbers can be compared. -/
theorem wake_comesTo [Comparable α] (ha : w.store.get? actor = some a) (room : Nat) (now : α)
    (pause : Pause α) : (wake w room now actor pause).ComesTo w.venue actor
      (pause.outcome w.venue.confine a.lasting) := by
  cases pause with
  | rest => exact ⟨rfl, a, ha, rfl⟩
  | bubble =>
    cases hw : (descend room messageSteps).bind fun _ => w.write actor { message := some .null } with
    | error cause =>
      simp only [wake, hw, ofWrite]
      exact ⟨a, ha, trivial⟩
    | ok done =>
      obtain ⟨-, -, hdone⟩ := bind_eq_ok hw
      have hget := World.get?_write hdone actor
      rw [if_pos rfl, ha] at hget
      simp only [wake, hw, ofWrite]
      exact ⟨(World.frame_write hdone).venue, _, hget, rfl⟩
  | frame m span =>
    cases hframe : m.frame w room actor (span.progress now) with
    | error cause =>
      simp only [wake, hframe]
      exact ⟨a, ha, trivial⟩
    | ok done =>
      have hvenue := (Motion.frame_deed hframe).conduct.frame.venue
      simp only [wake, hframe]
      split
      · exact Motion.frame_ended ha hframe
      · rename_i hlast
        have hone : span.progress now = Scalar.one := by
          unfold Span.progress Scalar.least at hlast ⊢
          split
          · rfl
          · rename_i hle
            rw [if_neg hle] at hlast
            exact Comparable.eq_of_not_lt (by simpa using hlast) (by simpa using hle)
        rw [hone] at hframe
        exact ⟨hvenue, Motion.lastFrame_lasts ha hframe⟩

end Leaf

/-! ## Resumptions -/

/-- Where a record is left, in the end or once the run goes on. A run that is broken off comes to nothing. -/
def Halt.ComesTo (v : Venue α) (p : Program α) (final a : Actor α) : Halt α → Prop
  | .sleep _ place => place.outcome v p a = final
  | .pass place => place.outcome v p a = final
  | .done .completed => a = final
  | .done _ => True

/-- An activity after which a run still comes to a record, unless it is broken off. -/
def Activity.ComesTo (v : Venue α) (p : Program α) (actor : Int) (final : Actor α) (x : Activity α) :
    Prop :=
  x.world.Lasts actor (x.halt.ComesTo v p final ·)

namespace Moment

/-- What reaching a block comes to: the block's own doing, and the rest if the activity ends inside it. -/
def LeadsOn (m : Moment α) (v : Venue α) (p : Program α) (rest : Program α) (loops : List (Loop α))
    (after : Actor α) : Activity α ⊕ World α × List (Signal α) → Prop
  | .inl x => x.ComesTo v p m.actor (outcomeAfter v p m.index loops (Program.outcome v rest after))
  | .inr (w, _) => w.venue = v ∧ w.Lasts m.actor (· = after)

private theorem afterLeaf_leadsOn (m : Moment α) {v : Venue α} (p : Program α) (rest : Program α)
    (loops : List (Loop α)) {after : Actor α} (out : List (Signal α)) {leaf : Leaf α}
    (h : leaf.ComesTo v m.actor after) :
    LeadsOn m v p rest loops after (m.afterLeaf rest loops out leaf) := by
  cases leaf with
  | finished w more => exact h
  | sleeping w more seconds pause =>
    obtain ⟨a, ha, hpause⟩ := h
    refine ⟨a, ha, ?_⟩
    simp only [Halt.ComesTo, Place.outcome, hpause]
  | failed w more =>
    obtain ⟨a, ha, -⟩ := h
    exact ⟨a, ha, trivial⟩

private theorem iterate_idle (v : Venue α) {children : Program α} {times : Nat} (h : children = [] ∨ times = 0)
    (a : Actor α) : (Program.outcome v children)^[times] a = a := by
  rcases h with rfl | rfl
  · have hid : Program.outcome v [] = id := by
      funext a
      simp [Program.outcome]
    rw [hid, Function.iterate_id, id]
  · rfl

/-- What can come of a block and of a sequence, as it can be read off them. -/
theorem dispatch_sequence_comesTo (m : Moment α) (v : Venue α) (p : Program α) :
    (∀ (b : Block α) rest loops w a, w.venue = v → w.store.get? m.actor = some a →
      LeadsOn m v p rest loops (Block.outcome v b a.lasting) (dispatch m rest loops w b)) ∧
    ∀ (q : Program α) loops w a, w.venue = v → w.store.get? m.actor = some a →
      (sequence m loops w q).ComesTo v p m.actor
        (outcomeAfter v p m.index loops (Program.outcome v q a.lasting)) := by
  apply Block.induction
  case block =>
    intro id typeId raw children ih rest loops w a hv ha
    have hcatalog : v.catalog = w.catalog := congrArg Venue.catalog hv.symm
    have hreaches := dispatch_reaches m rest loops w ⟨id, typeId, raw, children⟩
    generalize dispatch m rest loops w ⟨id, typeId, raw, children⟩ = result at hreaches
    cases hreaches with
    | refused noted => exact ⟨a, ha, trivial⟩
    | skipped unknown =>
      have hnone := reading_of_skipped unknown
      refine ⟨hv, a, ha, ?_⟩
      rw [Block.outcome, hcatalog, hnone]
    | broken resolved none => exact ⟨a, ha, trivial⟩
    | idle resolved loop nothing =>
      refine ⟨hv, a, ha, ?_⟩
      simp only [Block.outcome, hcatalog, reading_of_inputs? resolved, loop]
      exact (iterate_idle v nothing _).symm
    | enter resolved loop something =>
      rename_i noted inputs left
      have hrest := ih (⟨children, left, rest⟩ :: loops) w a hv ha
      have hblock : Block.outcome v ⟨id, typeId, raw, children⟩ a.lasting =
          (Program.outcome v children)^[left] (Program.outcome v children a.lasting) := by
        simp only [Block.outcome, hcatalog, reading_of_inputs? resolved, loop]
        rfl
      rw [hblock]
      exact hrest
    | leaf resolved instruction noLoop =>
      rename_i noted inputs i
      have hblock : Block.outcome v ⟨id, typeId, raw, children⟩ a.lasting =
          i.outcome v.confine a.lasting := by
        simp only [Block.outcome, hcatalog, reading_of_inputs? resolved, instruction]
      have hleaf := Leaf.begin_comesTo ha (w.roomBelow loops.length) m.now noLoop
      rw [hv] at hleaf
      rw [hblock]
      exact afterLeaf_leadsOn m p rest loops _ hleaf
  case nil =>
    intro loops w a hv ha
    rw [sequence]
    exact ⟨a, ha, rfl⟩
  case cons =>
    intro b rest hb hrest loops w a hv ha
    rw [sequence, Program.outcome]
    have hpassed := hb rest loops w a hv ha
    split
    · rename_i activity h
      rw [h] at hpassed
      exact hpassed
    · rename_i w' out h
      rw [h] at hpassed
      obtain ⟨hv', b', hb', hlast⟩ := hpassed
      have hgo := hrest loops w' b' hv' hb'
      rw [hlast] at hgo
      exact hgo

private theorem step_comesTo (m : Moment α) {w : World α} {a : Actor α} (ha : w.store.get? m.actor = some a) :
    (step m w).ComesTo w.venue a.program m.actor
      (Program.outcome w.venue (a.program.drop m.index) a.lasting) := by
  rcases step_cases m w with ⟨hnone, -⟩ | ⟨a', ha', hend, hs⟩ | ⟨a', block, w₁, said, ha', hblock, written, hs⟩
  · cases hnone.symm.trans ha
  · cases ha.symm.trans ha'
    have hdrop : a.program.drop m.index = [] :=
      List.drop_eq_nil_iff.mpr (List.getElem?_eq_none_iff.mp hend)
    rw [hs, hdrop, Program.outcome]
    exact ⟨a, ha, rfl⟩
  · cases ha.symm.trans ha'
    obtain ⟨hlt, rfl⟩ := List.getElem?_eq_some_iff.mp hblock
    have hget := World.get?_write written m.actor
    rw [if_pos rfl, ha] at hget
    obtain ⟨b, hb, hlast⟩ : w₁.Lasts m.actor (· = a.lasting) := ⟨_, hget, rfl⟩
    have hblock := (dispatch_sequence_comesTo m w.venue a.program).2 [a.program[m.index]] [] w₁ b
      (World.frame_write written).venue hb
    rw [hlast] at hblock
    rw [hs, List.drop_eq_getElem_cons hlt]
    exact hblock

private theorem next_comesTo (m : Moment α) {w : World α} {a : Actor α} (ha : w.store.get? m.actor = some a)
    (loops : List (Loop α)) : (next m w loops).ComesTo w.venue a.program m.actor
      (outcomeAfter w.venue a.program m.index loops a.lasting) := by
  have hsequence := (dispatch_sequence_comesTo m w.venue a.program).2
  cases loops with
  | nil => exact step_comesTo { m with index := m.index + 1 } ha
  | cons l loops =>
    cases hleft : l.left with
    | zero =>
      simp only [next, outcomeAfter, hleft]
      exact hsequence l.after loops w a rfl ha
    | succ left =>
      simp only [next, outcomeAfter, hleft]
      exact hsequence l.body ({ l with left } :: loops) w a rfl ha

end Moment

theorem World.collide_alone {w : World α} {a : Actor α} (h : w.store.actors = [a]) (room : Nat) :
    w.collide room = ({ w with touching := [] }, [], .ok []) := by
  simp only [World.collide, World.collideWith, Collision.passWith, h]
  rfl

/-- A resumption never changes what the run of an actor comes to that is alone. -/
theorem Place.resume_comesTo [Comparable α] (now : α) {w : World α} {a : Actor α}
    (h : w.store.actors = [a]) (place : Place α) :
    (place.resume now a.id w).ComesTo w.venue a.program a.id
      (place.outcome w.venue a.program a.lasting) := by
  have ha : w.store.get? a.id = some a := by simp [Store.get?, h]
  cases place with
  | fresh => exact Moment.step_comesTo ⟨now, a.id, 0⟩ ha
  | asleep pause rest loops index =>
    have hwake := Leaf.wake_comesTo ha (w.roomBelow loops.length) now pause
    simp only [Place.resume, Place.outcome]
    generalize Leaf.wake w (w.roomBelow loops.length) now a.id pause = leaf at hwake
    cases leaf with
    | finished w₁ out =>
      obtain ⟨hvenue, b, hb, hlast⟩ := hwake
      rw [← hlast]
      exact (Moment.dispatch_sequence_comesTo ⟨now, a.id, index⟩ w.venue a.program).2 rest loops w₁ b
        hvenue hb
    | sleeping w₁ out seconds pause' =>
      obtain ⟨b, hb, hlast⟩ := hwake
      refine ⟨b, hb, ?_⟩
      simp only [Halt.ComesTo, Place.outcome, hlast]
    | failed w₁ out =>
      obtain ⟨b, hb, -⟩ := hwake
      exact ⟨b, hb, trivial⟩
  | turn loops index =>
    rw [resume_turn, World.collide_alone h]
    exact Moment.next_comesTo ⟨now, a.id, index⟩ (w := { w with touching := [] }) ha loops

end SpriteStage
