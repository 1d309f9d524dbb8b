import Mathlib.Data.List.Forall2
import SpriteStage.Proofs.Checkpoints
import SpriteStage.Proofs.Exact
/-!
# Motions on their tracks

A motion is shown once for each time that its run wakes, until the run is asked to stop or the
time is over. When it wakes is up to the clock and to the other runs, and what it draws it draws
from where it set out: nobody has to leave its actor in place meanwhile.
-/
namespace SpriteStage

variable {α : Type} [Scalar α]

/-- What a run finds when its sleep ends: whether it was asked to stop, the world, the room for steps down and the
time. -/
structure Waking (α : Type) where
  asked : Bool
  world : World α
  room : Nat
  now : α

namespace Waking

/-- Wakings on one stage, none of them earlier than the one before. -/
def Follow (s : Settings α) : α → List (Waking α) → Prop
  | _, [] => True
  | now, k :: rest => k.world.settings = s ∧ Scalar.lt k.now now = false ∧ Follow s k.now rest

/-- Wakings of a run that nobody asks to stop and that can draw its frames, each of them an interval later at least
than the one before. -/
def Steady (actor : Int) (interval : α) : α → List (Waking α) → Prop
  | _, [] => True
  | now, k :: rest => k.asked = false ∧ actor ∈ k.world.store.ids ∧ frameSteps ≤ k.room ∧
      Scalar.lt k.now (now + interval) = false ∧ Steady actor interval k.now rest

end Waking

def Waking.goesOn (k : Waking α) (actor : Int) (pause : Pause α) : Option (Leaf α) :=
  Leaf.wakeGuarded k.asked k.world k.room k.now actor pause

/-- What a block shows at a moment, with the world that it leaves. -/
abbrev Frame (α : Type) := World α × List (Signal α)

/-- What a block shows over some time, and the state that it ends in. There is none if it ends at a checkpoint. -/
structure Course (α : Type) where
  frames : List (Frame α)
  last : Option (Leaf α)

namespace Course

def isFinished (c : Course α) : Bool :=
  match c.last with
  | some (.finished _ _) => true
  | _ => false

end Course

namespace Leaf

/-- What a block has shown when it comes to a state. -/
def shown : Leaf α → List (Frame α)
  | .finished w out | .sleeping w out _ _ | .failed w out => if out.isEmpty then [] else [(w, out)]

/-- How a block goes on from a state over some wakings. -/
def course (actor : Int) : Option (Leaf α) → List (Waking α) → Course α
  | none, _ => ⟨[], none⟩
  | some (.sleeping w out seconds pause), k :: wakings =>
    let rest := course actor (k.goesOn actor pause) wakings
    ⟨(sleeping w out seconds pause).shown ++ rest.frames, rest.last⟩
  | some leaf, _ => ⟨leaf.shown, some leaf⟩

variable {actor : Int} {m : Motion α}

private theorem course_nil (leaf : Leaf α) : course actor (some leaf) [] = ⟨leaf.shown, some leaf⟩ := by
  cases leaf <;> rfl

private theorem course_ended {leaf : Leaf α} (h : ∀ w out seconds pause, leaf ≠ .sleeping w out seconds pause)
    (wakings : List (Waking α)) : course actor (some leaf) wakings = ⟨leaf.shown, some leaf⟩ := by
  cases leaf with
  | sleeping w out seconds pause => exact absurd rfl (h w out seconds pause)
  | finished _ _ | failed _ _ => cases wakings <;> rfl

omit [Scalar α] in
theorem shown_finished {frame : Frame α} (h : frame.2.isEmpty = false) :
    (finished frame.1 frame.2).shown = [frame] := by
  simp [shown, h]

omit [Scalar α] in
theorem shown_sleeping {frame : Frame α} (h : frame.2.isEmpty = false) (seconds : α) (pause : Pause α) :
    (sleeping frame.1 frame.2 seconds pause).shown = [frame] := by
  simp [shown, h]

private theorem beginGuarded_plan {w : World α} {a : Actor α} (ha : w.store.get? a.id = some a) {i : Instruction α}
    {seconds : α} (hplan : Motion.plan? w.settings.confine a i = some (.ok (m, seconds))) (asked : Bool) (room : Nat)
    (now : α) :
    beginGuarded asked w room now a.id i = ofMotionGuarded asked w room now a.id m (w.settings.scaled seconds) := by
  have hstart : startGuarded asked w room now a i =
      .ok (ofMotionGuarded asked w room now a.id m (w.settings.scaled seconds)) := by
    rw [startGuarded, hplan]
    rfl
  unfold beginGuarded
  rw [Store.get_of_get? ha]
  cases i with
  | wait _ => cases hplan
  | _ =>
    simp only [Except.bind, hstart]

end Leaf

/-! ## Frames -/

/-- Things that lead from a start to an end: each lies between the two, and on toward the end from those before. -/
structure OnTrack {β : Type} (between : β → β → β → Prop) (start stop : β) (xs : List β) : Prop where
  within : ∀ x ∈ xs, between start x stop
  onward : xs.Pairwise fun x y => between x y stop

/-- A frame that puts an actor at a point: the point is told and stored as the position, and as the newest point of the
trail. -/
structure PutsAt (actor : Int) (frame : Frame α) (p : Point α) : Prop where
  told : frame.2 = [.event ⟨actor, .wrote { position := some p } (some p)⟩]
  stored : ∃ a, frame.1.store.get? actor = some a ∧ a.position = p ∧ a.trail.getLast? = some p

structure GivesSize (actor : Int) (frame : Frame α) (x : α) : Prop where
  told : frame.2 = [.event ⟨actor, .wrote { size := some (.real x) } none⟩]
  stored : ∃ a, frame.1.store.get? actor = some a ∧ a.size = .real x

def Point.toward (start stop : Point α) (t : α) : Point α :=
  ⟨lerp start.x stop.x t, lerp start.y stop.y t⟩

namespace Motion

/-- A frame that shows a share of a motion. -/
def Drawn (m : Motion α) (s : Settings α) (actor : Int) (frame : Frame α) (t : α) : Prop :=
  ∃ w, w.settings = s ∧ m.draw w actor t = .ok frame

variable {m : Motion α} {s : Settings α} {actor : Int} {frame : Frame α} {t : α}

private theorem draw_out {w : World α} (h : m.draw w actor t = .ok frame) : frame.2.isEmpty = false := by
  cases m with
  | glide start stop =>
    obtain ⟨-, -, -, hout⟩ := World.glide_eq_ok.mp h
    rw [hout]
    rfl
  | turn _ _ | resize _ _ =>
    obtain ⟨-, -, -, hout⟩ := World.write_eq_ok.mp h
    rw [hout]
    rfl

private theorem Drawn.givesSize {start stop : α} (h : (resize start stop).Drawn s actor frame t) :
    GivesSize actor frame (lerp start stop t) := by
  obtain ⟨w, -, hdraw⟩ := h
  obtain ⟨a, ha, -, hout⟩ := World.write_eq_ok.mp hdraw
  have hfound := World.get?_write hdraw actor
  rw [if_pos rfl, ha, Option.map_some] at hfound
  exact ⟨hout, _, hfound, rfl⟩

end Motion

namespace Instruction

/-- The point that an instruction takes its actor to, before it is brought onto the stage. -/
def aim? (a : Actor α) : Instruction α → Option (Point α)
  | .move steps => steps.toScalar.toOption.map fun steps =>
    let (c, s) := Scalar.direction a.heading
    ⟨a.position.x + c * steps, a.position.y + s * steps⟩
  | .goto x y => do return ⟨← x.toScalar.toOption, ← y.toScalar.toOption⟩
  | _ => none

def course (i : Instruction α) (asked : Bool) (w : World α) (room : Nat) (now : α) (actor : Int)
    (wakings : List (Waking α)) : Course α :=
  Leaf.course actor (Leaf.beginGuarded asked w room now actor i) wakings

theorem plan_resize (confine : Point α → Point α) {a : Actor α} {n change : Number α} {size extra : α}
    (hextent : a.extent = .ok n) (hsize : n.toScalar = .ok size) (hchange : change.toScalar = .ok extra) :
    ∃ seconds, Motion.plan? confine a (.resize change) =
      some (.ok (.resize size (Scalar.clamp (Scalar.whole 20) (Scalar.whole 100) (size + extra)), seconds)) := by
  refine ⟨Scalar.abs (Scalar.clamp (Scalar.whole 20) (Scalar.whole 100) (size + extra) - size) * secondsPerSize, ?_⟩
  simp only [Motion.plan?, hextent, hsize, hchange, bind, Except.bind, pure, Except.pure]

end Instruction

variable [Exact α]

open Exact

instance (priority := low) : Gradual α where
  isShare_one := by simp [isShare_iff]
  quotient_not_below hbegun hlasts := by
    rw [not_lt_iff] at hbegun ⊢
    rw [not_le_iff, value_zero] at hlasts
    rw [div, sub, value_zero]
    exact div_nonneg (sub_nonneg.mpr hbegun) hlasts.le
  isShare_remainder h := by
    rw [isShare_iff] at h ⊢
    rw [sub, value_one]
    exact ⟨sub_nonneg.mpr h.2, sub_le_self 1 h.1⟩

instance (priority := low) : Cubic α where
  isSome_cube? {x} _ := by
    obtain ⟨y, hy, -⟩ := cube x
    rw [hy]
    rfl

/-! ## The shares of the way -/

namespace Motion

/-- Frames that show a motion at shares of the way which never decrease, the last of them all of it if the block is
through. -/
structure Runs (m : Motion α) (s : Settings α) (actor : Int) (low : ℚ) (course : Course α) (shares : List α) :
    Prop where
  drawn : List.Forall₂ (m.Drawn s actor) course.frames shares
  range : ∀ t ∈ shares, low ≤ value t ∧ value t ≤ 1
  rises : shares.Pairwise (value · ≤ value ·)
  whole : course.isFinished = true → shares.getLast? = some Scalar.one

variable {m : Motion α} {s : Settings α} {actor : Int} {low : ℚ}

private theorem Runs.nil {course : Course α} (hshown : course.frames = []) (hlast : course.isFinished = false) :
    m.Runs s actor low course [] where
  drawn := by
    rw [hshown]
    exact .nil
  range := by simp
  rises := .nil
  whole hfinished := by
    rw [hlast] at hfinished
    cases hfinished

private theorem Runs.cons {frame : Frame α} {t : α} {course : Course α} {shares : List α}
    (hdrawn : m.Drawn s actor frame t) (hlow : low ≤ value t) (hone : value t ≤ 1)
    (h : m.Runs s actor (value t) course shares) :
    m.Runs s actor low ⟨frame :: course.frames, course.last⟩ (t :: shares) where
  drawn := .cons hdrawn h.drawn
  range := List.forall_mem_cons.mpr ⟨⟨hlow, hone⟩, fun u hu => ⟨hlow.trans (h.range u hu).1, (h.range u hu).2⟩⟩
  rises := .cons (fun u hu => (h.range u hu).1) h.rises
  whole hfinished := by
    have hlast := h.whole hfinished
    obtain ⟨u, rest, rfl⟩ := List.exists_cons_of_ne_nil (l := shares) (by rintro rfl; cases hlast)
    rw [List.getLast?_cons_cons, hlast]

private theorem Runs.last {frame : Frame α} {leaf : Leaf α} (hdrawn : m.Drawn s actor frame Scalar.one)
    (hlow : low ≤ 1) : m.Runs s actor low ⟨[frame], some leaf⟩ [Scalar.one] where
  drawn := .cons hdrawn .nil
  range := by simpa using hlow
  rises := List.pairwise_singleton _ _
  whole _ := rfl

private theorem frame_drawn {w : World α} {room : Nat} {progress : α} {frame : Frame α}
    (h : m.frame w room actor progress = .ok frame) :
    ∃ t, m.Drawn w.settings actor frame t ∧ value t = m.easing.curve (value progress) ∧ frame.2.isEmpty = false := by
  obtain ⟨-, -, h⟩ := bind_eq_ok h
  obtain ⟨t, ht, h⟩ := bind_eq_ok h
  obtain ⟨u, hu, hvalue⟩ := m.easing.apply_eq progress
  cases ht.symm.trans hu
  exact ⟨t, ⟨w, rfl, h⟩, hvalue, draw_out h⟩

private theorem drawn_whole {frame : Frame α} {t : α} {p : ℚ} (h : m.Drawn s actor frame t)
    (ht : value t = m.easing.curve p) (hp : p = 1) : m.Drawn s actor frame Scalar.one := by
  have hone : t = Scalar.one := injective (by rw [ht, hp, Easing.curve_one, value_one])
  exact hone ▸ h

end Motion

private theorem Span.progress_le_one (s : Span α) (now : α) : value (s.progress now) ≤ 1 := by
  rw [Span.value_progress]
  exact min_le_right _ _

namespace Leaf

variable {m : Motion α} {actor : Int} {s : Settings α} {span : Span α}

private theorem wake_frame (m : Motion α) (span : Span α) (actor : Int) (k : Waking α)
    (hsettings : k.world.settings = s) :
    ((k.asked = false → ∃ cause, m.frame k.world k.room actor (span.progress k.now) = .error cause) ∧
      ∀ wakings, (course actor (k.goesOn actor (.frame m span)) wakings).frames = [] ∧
        (course actor (k.goesOn actor (.frame m span)) wakings).isFinished = false) ∨
    ∃ frame t, m.Drawn s actor frame t ∧ value t = m.easing.curve (value (span.progress k.now)) ∧
      (value (span.progress k.now) = 1 ∧ (∀ wakings, course actor (k.goesOn actor (.frame m span)) wakings =
        ⟨[frame], some (.finished frame.1 frame.2)⟩) ∨
      value (span.progress k.now) < 1 ∧ ∃ seconds, k.goesOn actor (.frame m span) =
        some (.sleeping frame.1 frame.2 seconds (.frame m span)) ∧ frame.2.isEmpty = false) := by
  unfold Waking.goesOn
  cases hasked : k.asked with
  | true => exact .inl ⟨by simp, fun wakings => by simp [wakeGuarded, course, Course.isFinished]⟩
  | false =>
    simp only [wakeGuarded, Bool.false_eq_true, if_false]
    cases hframe : m.frame k.world k.room actor (span.progress k.now) with
    | error cause =>
      refine .inl ⟨fun _ => ⟨cause, rfl⟩, fun wakings => ?_⟩
      rw [course_ended (by simp)]
      exact ⟨rfl, rfl⟩
    | ok frame =>
      obtain ⟨t, hdrawn, hvalue, hout⟩ := Motion.frame_drawn hframe
      refine .inr ⟨frame, t, hsettings ▸ hdrawn, hvalue, ?_⟩
      cases hlt : Scalar.lt (span.progress k.now) Scalar.one with
      | true => exact .inr ⟨by simpa using (lt_iff _ _).mp hlt, _, rfl, hout⟩
      | false =>
        have hone : 1 ≤ value (span.progress k.now) := by simpa using not_lt_iff.mp hlt
        refine .inl ⟨le_antisymm (span.progress_le_one k.now) hone, fun wakings => ?_⟩
        simp only [Bool.false_eq_true, if_false, checkpoint]
        rw [course_ended (by simp), shown_finished hout]

/-- A motion over the wakings that are left, from one of them on. What has been shown so far is a lower bound of all
shares to come. -/
theorem course_wake (hlasts : 0 ≤ value span.duration) (k : Waking α) (wakings : List (Waking α)) {low : ℚ}
    (hlow : low ≤ m.easing.curve (value (span.progress k.now))) (hsettings : k.world.settings = s)
    (hfollow : Waking.Follow s k.now wakings) :
    ∃ shares, m.Runs s actor low (course actor (k.goesOn actor (.frame m span)) wakings) shares := by
  rcases wake_frame m span actor k hsettings with
    ⟨-, hnothing⟩ | ⟨frame, t, hdrawn, ht, ⟨hover, hwake⟩ | ⟨-, seconds, hwake, hout⟩⟩
  · exact ⟨[], .nil (hnothing wakings).1 (hnothing wakings).2⟩
  · rw [hover, Easing.curve_one] at hlow
    rw [hwake]
    exact ⟨[Scalar.one], .last (Motion.drawn_whole hdrawn ht hover) hlow⟩
  · have hone : value t ≤ 1 := by
      rw [ht]
      simpa using m.easing.curve_mono (span.progress_le_one k.now)
    rw [← ht] at hlow
    rw [hwake]
    cases wakings with
    | nil =>
      have hhere : m.Runs s actor (value t) ⟨[], some (.sleeping frame.1 frame.2 seconds (.frame m span))⟩ [] :=
        .nil rfl rfl
      rw [course_nil, shown_sleeping hout]
      exact ⟨[t], hhere.cons hdrawn hlow hone⟩
    | cons k' wakings =>
      obtain ⟨hsettings', hlater, hfollow⟩ := hfollow
      have hrises : value t ≤ m.easing.curve (value (span.progress k'.now)) := by
        rw [ht]
        exact m.easing.curve_mono (Span.progress_mono hlasts (not_lt_iff.mp hlater))
      obtain ⟨shares, hruns⟩ := course_wake hlasts k' wakings hrises hsettings' hfollow
      rw [course, shown_sleeping hout]
      exact ⟨t :: shares, hruns.cons hdrawn hlow hone⟩

private theorem course_motion (asked : Bool) (w : World α) (room : Nat) (now seconds : α)
    {wakings : List (Waking α)}
    (hfollow : Waking.Follow w.settings now wakings) : ∃ shares,
    m.Runs w.settings actor 0 (course actor (ofMotionGuarded asked w room now actor m seconds) wakings) shares := by
  unfold ofMotionGuarded
  cases hlasts : Scalar.le seconds Scalar.zero with
  | true =>
    cases asked with
    | true => exact ⟨[], .nil (by simp [checkpoint, course]) (by simp [checkpoint, course, Course.isFinished])⟩
    | false =>
      simp only [if_true, Bool.false_eq_true, if_false]
      cases hframe : m.frame w room actor Scalar.one with
      | error cause =>
        refine ⟨[], ?_⟩
        simp only [ofWrite]
        rw [course_ended (by simp)]
        exact .nil rfl rfl
      | ok frame =>
        obtain ⟨t, hdrawn, ht, hout⟩ := Motion.frame_drawn hframe
        simp only [ofWrite, checkpoint, Bool.false_eq_true, if_false]
        rw [course_ended (by simp), shown_finished hout]
        exact ⟨[Scalar.one], .last (Motion.drawn_whole hdrawn ht value_one) zero_le_one⟩
  | false =>
    have hpositive : 0 < value seconds := by simpa using not_le_iff.mp hlasts
    simp only [Bool.false_eq_true, if_false]
    split
    · refine ⟨[], ?_⟩
      rw [course_ended (by simp)]
      exact .nil rfl rfl
    · cases wakings with
      | nil => exact ⟨[], .nil rfl rfl⟩
      | cons k wakings =>
        obtain ⟨hsettings, hlater, hfollow⟩ := hfollow
        have hbegun : 0 ≤ m.easing.curve (value (Span.progress ⟨now, seconds⟩ k.now)) := by
          rw [← m.easing.curve_zero]
          refine m.easing.curve_mono ?_
          rw [Span.value_progress]
          exact le_min (div_nonneg (sub_nonneg.mpr (not_lt_iff.mp hlater)) hpositive.le) zero_le_one
        obtain ⟨shares, hruns⟩ := course_wake hpositive.le k wakings hbegun hsettings hfollow
        exact ⟨shares, hruns⟩

/-- A motion that sleeps comes to its end if nobody stops it, once it has woken often enough to reach the end of its
time. -/
theorem course_ends {span : Span α} {interval now : α} {n : Nat} {wakings : List (Waking α)}
    (hstart : value span.start ≤ value now) (hlasts : 0 < value span.duration)
    (hend : value span.start + value span.duration ≤ value now + n * value interval) (hinterval : 0 < value interval)
    (hsoon : value now < value span.start + value span.duration)
    (hsteady : Waking.Steady actor interval now wakings) (hn : n ≤ wakings.length) (w : World α)
    (out : List (Signal α)) (seconds : α) :
    (course actor (some (.sleeping w out seconds (.frame m span))) wakings).isFinished = true := by
  induction n generalizing now wakings w out seconds with
  | zero =>
    rw [Nat.cast_zero, zero_mul, add_zero] at hend
    exact absurd hsoon (not_lt.mpr hend)
  | succ n ih =>
    cases wakings with
    | nil => simp at hn
    | cons k wakings =>
      obtain ⟨hunasked, hpresent, hroom, hlater, hsteady⟩ := hsteady
      have hwoken : value now + value interval ≤ value k.now := by
        rw [← add]
        exact not_lt_iff.mp hlater
      have hshare : IsShare (span.progress k.now) :=
        Span.isShare_progress (not_lt_iff.mpr (by linarith)) (not_le_iff.mpr (by simpa using hlasts))
      rw [course]
      rcases wake_frame m span actor k rfl with
        ⟨hbroken, -⟩ | ⟨frame, t, -, -, ⟨-, hwake⟩ | ⟨hgoes, seconds', hwake, -⟩⟩
      · obtain ⟨cause, hcause⟩ := hbroken hunasked
        obtain ⟨w', out', hframe⟩ := Motion.frame_isOk hpresent m hroom hshare
        cases hcause.symm.trans hframe
      · rw [hwake]
        rfl
      · have hsoon' : value k.now < value span.start + value span.duration := by
          rw [Span.value_progress, min_lt_iff, div_lt_one hlasts] at hgoes
          linarith [hgoes.resolve_right (lt_irrefl 1)]
        rw [hwake]
        refine ih (by linarith) ?_ hsoon' hsteady (by simpa using hn) _ _ _
        push_cast at hend
        linarith

end Leaf

/-! ## Where motions lead -/

namespace Motion

variable {s : Settings α} {actor : Int} {frame : Frame α} {t : α}

private theorem Drawn.putsAt {start stop : Point α} (h : (glide start stop).Drawn s actor frame t)
    (hon : s.Holds (start.toward stop t)) : PutsAt actor frame (start.toward stop t) := by
  obtain ⟨w, hsettings, hdraw⟩ := h
  obtain ⟨a, ha, -, hout⟩ := World.glide_eq_ok.mp hdraw
  have hfound := World.get?_glide hdraw actor
  rw [if_pos rfl, ha, Option.map_some] at hfound
  have hplace : w.settings.confine (start.toward stop t) = start.toward stop t := by
    rw [hsettings]
    exact Settings.confine_of_holds hon
  refine ⟨?_, _, hfound, hplace, List.getLast?_concat⟩
  rw [hout]
  show [Signal.event ⟨actor, .wrote { position := some (w.settings.confine (start.toward stop t)) } _⟩] = _
  rw [hplace]
  rfl

variable {m : Motion α} {course : Course α} {shares : List α}

private theorem Runs.shows (h : m.Runs s actor 0 course shares) {β : Type} {Shown : Frame α → β → Prop}
    (place : α → β)
    (hshown : ∀ frame t, m.Drawn s actor frame t → 0 ≤ value t → value t ≤ 1 → Shown frame (place t)) :
    List.Forall₂ Shown course.frames (shares.map place) := by
  have hboth := (List.forall₂_and_left _ _).mpr ⟨h.range, h.drawn.flip⟩
  rw [List.forall₂_map_right_iff]
  exact (hboth.imp fun t frame ht => hshown frame t ht.2 ht.1.1 ht.1.2).flip

private theorem Runs.onTrack (h : m.Runs s actor 0 course shares) {β : Type} {between : β → β → β → Prop}
    {start stop : β}
    (place : α → β) (hbetween : ∀ t, 0 ≤ value t → value t ≤ 1 → between start (place t) stop)
    (htoward : ∀ t u, value t ≤ value u → value u ≤ 1 → between (place t) (place u) stop) :
    OnTrack between start stop (shares.map place) where
  within := by
    intro x hx
    obtain ⟨t, ht, rfl⟩ := List.mem_map.mp hx
    exact hbetween t (h.range t ht).1 (h.range t ht).2
  onward := by
    rw [List.pairwise_map]
    exact h.rises.imp_of_mem fun _ hu hle => htoward _ _ hle (h.range _ hu).2

private theorem Runs.getLast (h : m.Runs s actor 0 course shares) {β : Type} (place : α → β)
    (hfinished : course.isFinished = true) : (shares.map place).getLast? = some (place Scalar.one) := by
  rw [List.getLast?_map, h.whole hfinished, Option.map_some]

end Motion

namespace Instruction

variable {a : Actor α} {s : Settings α} {i : Instruction α}

private theorem plan_of_aim (hs : s.Confining) {aim : Point α} (haim : i.aim? a = some aim) :
    ∃ seconds, Motion.plan? s.confine a i = some (.ok (.glide a.position (s.confine aim), seconds)) := by
  cases i with
  | move steps =>
    obtain ⟨x, hx⟩ := toScalar_isOk steps
    simp only [aim?, hx, Except.toOption, Option.map_some, Option.some.injEq] at haim
    subst haim
    refine ⟨Scalar.abs x * secondsPerStep, ?_⟩
    simp only [Motion.plan?, hx]
    rfl
  | goto x y =>
    obtain ⟨u, hu⟩ := toScalar_isOk x
    obtain ⟨v, hv⟩ := toScalar_isOk y
    simp only [aim?, hu, hv, Except.toOption] at haim
    obtain rfl : ⟨u, v⟩ = aim := Option.some.inj haim
    have htwice : s.confine (s.confine ⟨u, v⟩) = s.confine ⟨u, v⟩ := Settings.confine_of_holds (hs _)
    refine ⟨Scalar.hypot ((s.confine ⟨u, v⟩).x - a.position.x) ((s.confine ⟨u, v⟩).y - a.position.y) *
      secondsPerUnit, ?_⟩
    simp only [Motion.plan?, hu, hv, bind, Except.bind, pure, Except.pure]
    rw [htwice]
  | turn _ | wait _ | say _ _ | resize _ | recolour _ | loop _ => cases haim

theorem aim_of_moves (a : Actor α) (h : (∃ steps, i = .move steps) ∨ ∃ x y, i = .goto x y) :
    ∃ aim, i.aim? a = some aim := by
  refine Option.isSome_iff_exists.mp ?_
  rcases h with ⟨steps, rfl⟩ | ⟨x, y, rfl⟩
  · obtain ⟨u, hu⟩ := toScalar_isOk steps
    simp [aim?, hu, Except.toOption]
  · obtain ⟨u, hu⟩ := toScalar_isOk x
    obtain ⟨v, hv⟩ := toScalar_isOk y
    simp [aim?, hu, hv, Except.toOption]

/-- An instruction that leads from a start to an end. Whenever its run wakes, and however early it is asked to stop,
what is shown lies between the two and on toward the end from what was shown before, and it is the end at last if the
block is through. If nobody stops the run then the block gets through. -/
structure Leads (i : Instruction α) (w : World α) (actor : Int) {β : Type}
    (Shows : Frame α → β → Prop) (between : β → β → β → Prop) (start stop : β) : Prop where
  track : ∀ asked room now wakings, Waking.Follow w.settings now wakings →
    ∃ xs, List.Forall₂ Shows (i.course asked w room now actor wakings).frames xs ∧ OnTrack between start stop xs ∧
      ((i.course asked w room now actor wakings).isFinished = true → xs.getLast? = some stop)
  ends : 0 < value w.settings.frameInterval → ∀ room now, frameSteps ≤ room → ∃ n, ∀ wakings,
    Waking.Steady actor w.settings.frameInterval now wakings → n ≤ wakings.length →
      (i.course false w room now actor wakings).isFinished = true

variable {w : World α} {m : Motion α} {seconds : α}

/-- A motion that nobody stops comes to its end after some number of frames, as the interval between them is
positive. -/
theorem course_ends (ha : w.store.get? a.id = some a)
    (hplan : Motion.plan? w.settings.confine a i = some (.ok (m, seconds)))
    (hinterval : 0 < value w.settings.frameInterval) {room : Nat} (hroom : frameSteps ≤ room) (now : α) :
    ∃ n, ∀ wakings : List (Waking α), Waking.Steady a.id w.settings.frameInterval now wakings →
      n ≤ wakings.length → (i.course false w room now a.id wakings).isFinished = true := by
  obtain ⟨n, hn⟩ := exists_nat_ge (value (w.settings.scaled seconds) / value w.settings.frameInterval)
  refine ⟨n, fun wakings hsteady hlength => ?_⟩
  rw [course, Leaf.beginGuarded_plan ha hplan, Leaf.ofMotionGuarded]
  cases hlasts : Scalar.le (w.settings.scaled seconds) Scalar.zero with
  | true =>
    obtain ⟨w', out, hframe⟩ := Motion.frame_isOk (Store.isSome_get?.mp (by rw [ha]; rfl)) m hroom
      (Gradual.isShare_one (α := α))
    simp only [hframe, Leaf.ofWrite, Leaf.checkpoint, if_true, Bool.false_eq_true, if_false]
    rw [Leaf.course_ended (by simp)]
    rfl
  | false =>
    have hpositive : 0 < value (w.settings.scaled seconds) := by simpa using not_le_iff.mp hlasts
    have hsteps : ¬ room < motionSteps := Nat.not_lt.mpr (Nat.le_trans (by decide) hroom)
    simp only [Bool.false_eq_true, if_false, hsteps]
    refine Leaf.course_ends le_rfl hpositive ?_ hinterval (lt_add_of_pos_right _ hpositive) hsteady hlength _ _ _
    exact add_le_add_right ((div_le_iff₀ hinterval).mp hn) _

private theorem leads_of_plan (ha : w.store.get? a.id = some a)
    (hplan : Motion.plan? w.settings.confine a i = some (.ok (m, seconds))) {β : Type}
    {Shows : Frame α → β → Prop} {between : β → β → β → Prop} {start stop : β} (place : α → β)
    (hshows : ∀ frame t, m.Drawn w.settings a.id frame t → 0 ≤ value t → value t ≤ 1 → Shows frame (place t))
    (hbetween : ∀ t, 0 ≤ value t → value t ≤ 1 → between start (place t) stop)
    (htoward : ∀ t u, value t ≤ value u → value u ≤ 1 → between (place t) (place u) stop)
    (hend : place Scalar.one = stop) : i.Leads w a.id Shows between start stop where
  track asked room now wakings hfollow := by
    obtain ⟨shares, hruns⟩ := Leaf.course_motion asked w room now (w.settings.scaled seconds) hfollow
    rw [← Leaf.beginGuarded_plan ha hplan] at hruns
    exact ⟨shares.map place, hruns.shows place hshows, hruns.onTrack place hbetween htoward,
      fun hfinished => (hruns.getLast place hfinished).trans (congrArg some hend)⟩
  ends hinterval room now hroom := course_ends ha hplan hinterval hroom now

/-- A movement leads its actor from where it stands, inside of the stage, to the point of the stage that is closest to
its aim. -/
theorem leads_to_aim (ha : w.store.get? a.id = some a) (hon : w.settings.Holds a.position) {aim : Point α}
    (haim : i.aim? a = some aim) :
    i.Leads w a.id (fun frame p => PutsAt a.id frame p ∧ w.settings.Holds p) Point.Between a.position
      (w.settings.confine aim) := by
  have hconfining := Settings.confining_of_holds hon
  obtain ⟨seconds, hplan⟩ := plan_of_aim hconfining haim
  have hbetween : ∀ t, 0 ≤ value t → value t ≤ 1 →
      a.position.Between (a.position.toward (w.settings.confine aim) t) (w.settings.confine aim) :=
    fun t ht ht' => ⟨lerp_between ht ht', lerp_between ht ht'⟩
  have hinside : ∀ t, 0 ≤ value t → value t ≤ 1 →
      w.settings.Holds (a.position.toward (w.settings.confine aim) t) :=
    fun t ht ht' => hon.between (hconfining aim) (hbetween t ht ht')
  refine leads_of_plan ha hplan (a.position.toward (w.settings.confine aim)) ?_ hbetween ?_ ?_
  · exact fun frame t hdrawn ht ht' => ⟨hdrawn.putsAt (hinside t ht ht'), hinside t ht ht'⟩
  · exact fun t u htu hu => ⟨lerp_toward htu hu, lerp_toward htu hu⟩
  · rw [Point.toward, lerp_one, lerp_one]

/-- A change of size leads from the size of the actor to the one that is asked for, brought between the bounds. -/
theorem leads_to_size (ha : w.store.get? a.id = some a) {n change : Number α} {size extra : α}
    (hextent : a.extent = .ok n) (hsize : n.toScalar = .ok size) (hchange : change.toScalar = .ok extra) :
    (resize change).Leads w a.id (GivesSize a.id) Exact.Between size
      (Scalar.clamp (Scalar.whole 20) (Scalar.whole 100) (size + extra)) := by
  obtain ⟨seconds, hplan⟩ := plan_resize w.settings.confine hextent hsize hchange
  refine leads_of_plan ha hplan (lerp size (Scalar.clamp (Scalar.whole 20) (Scalar.whole 100) (size + extra)))
    ?_ ?_ ?_ ?_
  · exact fun frame t hdrawn _ _ => hdrawn.givesSize
  · exact fun t ht ht' => lerp_between ht ht'
  · exact fun t u htu hu => lerp_toward htu hu
  · exact lerp_one _ _

end Instruction

end SpriteStage
