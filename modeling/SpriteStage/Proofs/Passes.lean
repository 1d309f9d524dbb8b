import SpriteStage.Proofs.Records
/-!
# What a collision pass leaves alone

A pass only hands programs over. What it tells is plain, as is all that operations tell: events
and notices, and nothing about what runs do or that a program has failed.
-/
namespace SpriteStage

variable {α : Type}

/-- Stores with the same actors, whose records differ in nothing but their programs. -/
structure Store.SameBodies (st st' : Store α) : Prop where
  ids : st'.ids = st.ids
  nextId : st'.nextId = st.nextId
  body : ∀ id, (st'.get? id).map Actor.body = (st.get? id).map Actor.body

namespace Store.SameBodies

theorem refl (st : Store α) : SameBodies st st := ⟨rfl, rfl, fun _ => rfl⟩

theorem trans {st st₁ st₂ : Store α} (h : SameBodies st st₁) (h' : SameBodies st₁ st₂) :
    SameBodies st st₂ :=
  ⟨h'.ids.trans h.ids, h'.nextId.trans h.nextId, fun id => (h'.body id).trans (h.body id)⟩

end Store.SameBodies

/-- Whether a signal is an event or a notice, and not the notice that a program has failed. -/
def Signal.Plain : Signal α → Prop
  | .notice (.programFailed _) => False
  | .event _ | .notice _ => True
  | _ => False

variable [Scalar α]

namespace Store

omit [Scalar α] in
theorem publish_plain (room : Nat) (st : Store α) (written : Except Error (Store α × Event α)) :
    ∀ x ∈ (st.publish room written).out, x.Plain := by
  cases written with
  | error cause => simp [publish]
  | ok done =>
    simp only [publish]
    split
    · simp
    · simp [Signal.Plain]

private theorem hand_plain (room : Nat) (s : Settings α) (st : Store α) (id : Int) (p : Program α) :
    ∀ x ∈ (st.hand room s id p).out, x.Plain := by
  unfold hand
  split
  · simp
  · exact publish_plain _ _ _

omit [Scalar α] in
theorem andThen_plain {done : Written α} {f : Store α → Written α} (h : ∀ x ∈ done.out, x.Plain)
    (hf : ∀ st, ∀ x ∈ (f st).out, x.Plain) : ∀ x ∈ (done.andThen f).out, x.Plain := by
  unfold Written.andThen
  split
  · exact h
  · intro x hx
    rcases List.mem_append.mp hx with hx | hx
    · exact h x hx
    · exact hf done.store x hx

theorem write_program_bodies {s : Settings α} {st st' : Store α} {id : Int} {p : Program α}
    {e : Event α} (h : st.write s id { program := some p } = .ok (st', e)) : SameBodies st st' := by
  unfold write at h
  cases ha : st.get id with
  | error cause =>
    rw [ha] at h
    cases h
  | ok a =>
    rw [ha] at h
    cases h
    have hget := get_eq_ok.mp ha
    have hid := get?_id hget
    refine ⟨ids_replace _ _, rfl, fun j => ?_⟩
    rw [get?_replace]
    split
    · rename_i hj
      have hj : j = id := hj.trans hid
      subst hj
      rw [hget]
      rfl
    · rfl

omit [Scalar α] in
theorem publish_bodies {room : Nat} {st : Store α} {written : Except Error (Store α × Event α)}
    (h : ∀ st' e, written = .ok (st', e) → SameBodies st st') :
    SameBodies st (st.publish room written).store := by
  cases written with
  | error cause => exact .refl st
  | ok done =>
    have hdone := h done.1 done.2 rfl
    simp only [publish]
    split
    · exact hdone
    · exact hdone

theorem hand_bodies (room : Nat) (s : Settings α) (st : Store α) (id : Int) (p : Program α) :
    SameBodies st (st.hand room s id p).store := by
  unfold hand
  split
  · exact .refl st
  · exact publish_bodies fun _ _ h => write_program_bodies h

omit [Scalar α] in
theorem andThen_bodies {st : Store α} {done : Written α} {f : Store α → Written α}
    (h : SameBodies st done.store) (hf : ∀ st₁, SameBodies st₁ (f st₁).store) :
    SameBodies st (done.andThen f).store := by
  unfold Written.andThen
  split
  · exact h
  · exact h.trans (hf done.store)

end Store

namespace Collision

open Store (SameBodies)

theorem swap_bodies (room : Nat) (s : Settings α) (st : Store α) (pair : Pair) :
    SameBodies st (swap room s st pair).store := by
  unfold swap
  split
  · apply Store.andThen_bodies (Store.hand_bodies _ _ _ _ _)
    intro st₁
    apply Store.andThen_bodies (Store.hand_bodies _ _ _ _ _)
    intro st₂
    exact .refl st₂
  · exact .refl st
  · exact .refl st

private theorem swapAll_bodies (room : Nat) (s : Settings α) (st : Store α) (pairs : List Pair) :
    SameBodies st (swapAll room s st pairs).store := by
  induction pairs generalizing st with
  | nil => exact .refl st
  | cons pair rest ih => exact Store.andThen_bodies (swap_bodies room s st pair) ih

theorem passWith_bodies (hit : Actor α → Actor α → Except Error Bool) (room : Nat) (s : Settings α)
    (st : Store α) (touching : List Pair) :
    SameBodies st (passWith hit room s st touching).store := by
  unfold passWith
  split
  · exact .refl st
  · exact swapAll_bodies _ _ _ _

private theorem swap_plain (room : Nat) (s : Settings α) (st : Store α) (pair : Pair) :
    ∀ x ∈ (swap room s st pair).out, x.Plain := by
  unfold swap
  split
  · apply Store.andThen_plain (Store.hand_plain _ _ _ _ _)
    intro st₁
    apply Store.andThen_plain (Store.hand_plain _ _ _ _ _)
    intro st₂
    simp [Signal.Plain]
  · simp
  · simp

private theorem swapAll_plain (room : Nat) (s : Settings α) (st : Store α) (pairs : List Pair) :
    ∀ x ∈ (swapAll room s st pairs).out, x.Plain := by
  induction pairs generalizing st with
  | nil => simp [swapAll]
  | cons pair rest ih => exact Store.andThen_plain (swap_plain room s st pair) ih

omit [Scalar α] in
theorem hits_isOk {hit : Actor α → Except Error Bool} {actors : List (Actor α)}
    (h : ∀ a ∈ actors, ∃ here, hit a = .ok here) : ∃ found, hits hit actors = .ok found := by
  induction actors with
  | nil => exact ⟨[], rfl⟩
  | cons a rest ih =>
    obtain ⟨here, hhere⟩ := h a (by simp)
    obtain ⟨found, hfound⟩ := ih fun b hb => h b (by simp [hb])
    refine ⟨if here then a :: found else found, ?_⟩
    rw [hits, hhere, hfound]
    rfl

omit [Scalar α] in
theorem overlapping_isOk {hit : Actor α → Actor α → Except Error Bool} {actors : List (Actor α)}
    (h : ∀ a ∈ actors, ∀ b ∈ actors, ∃ here, hit a b = .ok here) :
    ∃ pairs, overlapping hit actors = .ok pairs := by
  induction actors with
  | nil => exact ⟨[], rfl⟩
  | cons a rest ih =>
    have hfirst : ∀ b ∈ rest, ∃ here, hit a b = .ok here := fun b hb => h a (by simp) b (by simp [hb])
    obtain ⟨found, hfound⟩ := hits_isOk hfirst
    obtain ⟨pairs, hpairs⟩ := ih fun b hb c hc => h b (by simp [hb]) c (by simp [hc])
    refine ⟨found.map (fun b => (a.id, b.id)) ++ pairs, ?_⟩
    rw [overlapping, hfound, hpairs]
    rfl

theorem passWith_nil {hit : Actor α → Actor α → Except Error Bool} {room : Nat} {s : Settings α}
    {st : Store α} {touching : List Pair}
    (h : (passWith hit room s st touching).result = .ok []) :
    (passWith hit room s st touching).store = st ∧
      (passWith hit room s st touching).signals = [] := by
  unfold passWith at h ⊢
  split at h
  · cases h
  · rename_i now hnow
    dsimp only at h ⊢
    cases hdone : (swapAll room s st (matching (now.filter (!touching.contains ·)) [])).result with
    | error cause =>
      rw [hdone] at h
      cases h
    | ok done =>
      rw [hdone] at h
      have hfresh : matching (now.filter (!touching.contains ·)) [] = [] := by
        simpa [Except.map] using h
      rw [hfresh]
      exact ⟨rfl, rfl⟩

end Collision

namespace World

private theorem collide_bodies (w : World α) (room : Nat) :
    Store.SameBodies w.store (w.collide room).1.store :=
  Collision.passWith_bodies _ _ _ _ _

theorem collide_plain (w : World α) (room : Nat) : ∀ x ∈ (w.collide room).2.1, x.Plain := by
  simp only [collide, collideWith, Collision.passWith]
  split
  · simp
  · exact Collision.swapAll_plain _ _ _ _

theorem frame_collide (w : World α) (room : Nat) : SameFrame w (w.collide room).1 :=
  ⟨rfl, rfl, rfl, rfl, (w.collide_bodies room).nextId, (w.collide_bodies room).ids⟩

/-- The pairs that a collision pass begins to swap: those that overlap and did not at the last one. -/
def colliding (w : World α) : List Pair :=
  match Collision.overlapping Actor.collides w.store.actors with
  | .error _ => []
  | .ok now => Collision.matching (now.filter (!w.touching.contains ·)) []

theorem collides_isOk {a b : Actor α} (ha : ∃ x, a.size = .real x) (hb : ∃ x, b.size = .real x) :
    ∃ here, a.collides b = .ok here := by
  obtain ⟨x, hx⟩ := ha
  obtain ⟨y, hy⟩ := hb
  have hextent : a.extent = .ok (.real x) := by simp [Actor.extent, hx, Value.number?]
  have hextent' : b.extent = .ok (.real y) := by simp [Actor.extent, hy, Value.number?]
  unfold Actor.collides
  rw [hextent, hextent']
  exact ⟨_, rfl⟩

theorem collide_of_apart {w : World α} (hsorted : w.store.Ascending) (hsized : w.store.Sized)
    (h : w.colliding = []) (room : Nat) : (w.collide room).2.2 = .ok [] := by
  have hsize : ∀ a ∈ w.store.actors, ∃ x, a.size = .real x :=
    fun a ha => hsized a.id a (Store.get?_of_mem hsorted ha)
  obtain ⟨now, hnow⟩ := Collision.overlapping_isOk fun a ha b hb => collides_isOk (hsize a ha) (hsize b hb)
  simp only [colliding, hnow] at h
  simp only [collide, collideWith, Collision.passWith, hnow, h]
  rfl

theorem status?_collide (w : World α) (room : Nat) (id : Int) :
    (w.collide room).1.status? id = w.status? id := by
  have hbody := congrArg (Option.map Actor.status) ((w.collide_bodies room).body id)
  simp only [Option.map_map] at hbody
  exact hbody

end World

end SpriteStage
