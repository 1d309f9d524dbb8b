import SpriteStage.Proofs.Conduct
/-! # What a run keeps to itself -/
namespace SpriteStage

variable {α : Type}

/-- Whether a signal is about an actor, as far as it is about one at all. -/
def Signal.Of (actor : Int) : Signal α → Prop
  | .event e => e.actor = actor
  | .notice _ => True
  | .dispatched a _ _ => a = actor
  | .pass a => a = actor

private theorem Signal.Aside.of {actor : Int} {x : Signal α} (h : x.Aside actor) : x.Of actor := by
  cases x with
  | event e => exact h.elim
  | notice n => trivial
  | dispatched a b inputs => exact h
  | pass a => exact h.elim

/-- A change of the world that concerns one actor, and no program. -/
structure Personal (actor : Int) (w : World α) (out : List (Signal α)) (w' : World α) : Prop where
  frame : World.SameFrame w w'
  others : ∀ id, id ≠ actor → w'.store.get? id = w.store.get? id
  programs : ∀ id, (w'.store.get? id).map (·.program) = (w.store.get? id).map (·.program)
  signals : ∀ x ∈ out, x.Of actor

namespace Personal

variable {actor : Int} {w w₁ w' : World α} {out more : List (Signal α)}

private theorem nothing (w : World α) (h : ∀ x ∈ out, x.Of actor) : Personal actor w out w :=
  ⟨.refl w, fun _ _ => rfl, fun _ => rfl, h⟩

private theorem append (h : Personal actor w out w₁) (h' : Personal actor w₁ more w') :
    Personal actor w (out ++ more) w' where
  frame := h.frame.trans h'.frame
  others id hid := (h'.others id hid).trans (h.others id hid)
  programs id := (h'.programs id).trans (h.programs id)
  signals x hx := by
    rcases List.mem_append.mp hx with hx | hx
    · exact h.signals x hx
    · exact h'.signals x hx

variable [Scalar α]

theorem ofWrite {p : Patch α} (hp : p.program = none) (h : w.write actor p = .ok (w', out)) :
    Personal actor w out w' where
  frame := World.frame_write h
  others id hid := by rw [World.get?_write h, if_neg hid]
  programs id := by
    rw [World.get?_write h]
    split
    · rw [Option.map_map]
      congr 1
      funext a
      change p.program.getD a.program = a.program
      rw [hp]
      rfl
    · rfl
  signals x hx := by
    obtain ⟨-, -, -, rfl⟩ := World.write_eq_ok.mp h
    rw [List.mem_singleton.mp hx]
    rfl

private theorem ofGlide {point : Point α} (h : w.glide actor point = .ok (w', out)) :
    Personal actor w out w' where
  frame := World.frame_glide h
  others id hid := by rw [World.get?_glide h, if_neg hid]
  programs id := by
    rw [World.get?_glide h]
    split
    · rw [Option.map_map]
      rfl
    · rfl
  signals x hx := by
    obtain ⟨-, -, -, rfl⟩ := World.glide_eq_ok.mp h
    rw [List.mem_singleton.mp hx]
    rfl

end Personal

variable [Scalar α]

private theorem Conduct.personal {actor : Int} {w w' : World α} {out : List (Signal α)}
    (h : Conduct actor w out w') : Personal actor w out w' := by
  induction h with
  | nil w => exact .nothing w (by simp)
  | @tell w w' out x aside _ ih =>
    have htold : Personal actor w [x] w := .nothing w (by simpa using aside.of)
    exact htold.append ih
  | change heading size look written _ ih =>
    exact (Personal.ofWrite rfl written).append ih
  | move point glided _ ih => exact (Personal.ofGlide glided).append ih

namespace Activity

variable {actor : Int} {w w₁ : World α} {a : Activity α}

/-- An activity that concerns one actor, and no program. -/
def Own (actor : Int) (w : World α) (a : Activity α) : Prop := Personal actor w a.out a.world

private theorem Proper.own (h : a.Proper actor w) : a.Own actor w := by
  cases h with
  | plain conduct _ => exact conduct.personal
  | bubble text conduct shown => exact conduct.personal.append (.ofWrite rfl shown)

omit [Scalar α] in
theorem Own.after {out : List (Signal α)} (h : Personal actor w out w₁) (ha : a.Own actor w₁) :
    (a.after out).Own actor w :=
  h.append ha

private theorem fail_own (w : World α) (actor : Int) : (fail w actor).Own actor w :=
  (fail_proper w actor).own

end Activity

theorem Moment.step_own (m : Moment α) (w : World α) : (step m w).Own m.actor w := by
  rcases step_cases m w with ⟨-, hs⟩ | ⟨a, -, -, hs⟩ | ⟨a, block, w₁, said, -, -, written, hs⟩
  · rw [hs]
    exact Activity.fail_own w m.actor
  · rw [hs]
    exact .nothing w (by simp)
  · rw [hs]
    exact .after (.ofWrite rfl written) (sequence_proper m [] w₁ [block]).own

private theorem Moment.next_own (m : Moment α) (w : World α) (loops : List (Loop α)) :
    (next m w loops).Own m.actor w := by
  cases loops with
  | nil => exact step_own { m with index := m.index + 1 } w
  | cons l loops =>
    cases hleft : l.left with
    | zero =>
      simp only [next, hleft]
      exact (sequence_proper m _ w _).own
    | succ left =>
      simp only [next, hleft]
      exact (sequence_proper m _ w _).own

namespace Place

/-- What a run does when it goes on after a turn, in the world that the collision pass left. -/
def afterPass (now : α) (actor : Int) (loops : List (Loop α)) (index : Nat)
    (pass : World α × List (Signal α) × Except Error (List Pair)) : Activity α :=
  match pass.2.2 with
  | .error _ => .fail pass.1 actor
  | .ok _ => Moment.next ⟨now, actor, index⟩ pass.1 loops

theorem resume_turn (now : α) (actor : Int) (w : World α) (loops : List (Loop α)) (index : Nat) :
    (Place.turn loops index).resume now actor w =
      (afterPass now actor loops index (w.collide (w.passRoom loops.length))).after
        (.pass actor :: (w.collide (w.passRoom loops.length)).2.1) := rfl

theorem afterPass_own (now : α) (actor : Int) (loops : List (Loop α)) (index : Nat)
    (pass : World α × List (Signal α) × Except Error (List Pair)) :
    (afterPass now actor loops index pass).Own actor pass.1 := by
  unfold afterPass
  split
  · exact Activity.fail_own pass.1 actor
  · exact Moment.next_own ⟨now, actor, index⟩ pass.1 loops

theorem resume_asleep_own (now : α) (actor : Int) (w : World α) (pause : Pause α) (rest : Program α)
    (loops : List (Loop α)) (index : Nat) :
    ((Place.asleep pause rest loops index).resume now actor w).Own actor w := by
  have hrest : ∀ w₁ out, Personal actor w out w₁ →
      ((Moment.sequence ⟨now, actor, index⟩ loops w₁ rest).after out).Own actor w := by
    intro w₁ out h
    exact .after h (Moment.sequence_proper ⟨now, actor, index⟩ loops w₁ rest).own
  simp only [Place.resume]
  rcases Leaf.wake_cases w (w.roomBelow loops.length) now actor pause with
    ⟨rfl, w₁, out, cleared, hwake⟩ | ⟨rfl, hwake⟩ | ⟨-, hproper, hquiet⟩
  · rw [hwake]
    exact hrest w₁ out (.ofWrite rfl cleared)
  · rw [hwake]
    exact .after (.nothing w (by simp)) (Activity.fail_own w actor)
  · generalize Leaf.wake w (w.roomBelow loops.length) now actor pause = leaf at hproper hquiet
    cases leaf with
    | finished w₁ out => exact hrest w₁ out hproper.conduct.personal
    | sleeping w₁ out seconds pause' =>
      cases pause' with
      | bubble => exact absurd rfl (hquiet w₁ out seconds)
      | rest => exact hproper.conduct.personal
      | frame motion span => exact hproper.conduct.personal
    | failed w₁ out => exact .after hproper.conduct.personal (Activity.fail_own w₁ actor)

/-- The collision pass of a run that goes on there, if it begins with one, swaps no pair. -/
def PassesBy (w : World α) : Place α → Prop
  | .turn loops _ => (w.collide (w.passRoom loops.length)).2.2 = .ok []
  | _ => True

theorem resume_programs (now : α) (actor : Int) (w : World α) {place : Place α} (h : place.PassesBy w)
    (id : Int) :
    ((place.resume now actor w).world.store.get? id).map (·.program) =
      (w.store.get? id).map (·.program) := by
  cases place with
  | fresh => exact (Moment.step_own ⟨now, actor, 0⟩ w).programs id
  | asleep pause rest loops index =>
    exact (resume_asleep_own now actor w pause rest loops index).programs id
  | turn loops index =>
    obtain ⟨hstore, -⟩ := Collision.passWith_nil h
    have hown := (afterPass_own now actor loops index (w.collide (w.passRoom loops.length))).programs id
    exact hown.trans (congrArg (fun st : Store α => (st.get? id).map (·.program)) hstore)

end Place

end SpriteStage
