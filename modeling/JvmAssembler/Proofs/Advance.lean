import Mathlib
import JvmAssembler.Proofs.Alike
import JvmAssembler.Proofs.Labels

/-!
# Every generator action advances

The actions of operations and conditions, and with them whole bodies, advance
the state in the sense of `Advance`: they keep what was written and recorded,
place only labels of their own, and remember types only below their position.
-/

namespace JvmAssembler

/-! ## Single steps -/

namespace Advance

variable {pos : Position} {targets : List Label} {s t : State} {ctx : Context}

theorem of_emit {instr : Instr} (noMark : instr.isMark = false)
    (run : Gen.emit ctx instr s = .ok () t) : Advance pos targets s t := by
  obtain ⟨_, middle, wrote, ends⟩ := bind_eq_ok.mp run
  have written : Advance pos targets s middle :=
    of_emits (Gen.write_emits wrote) (placed_singleton_of_ne fun label same => by
      simp [same, Instr.isMark] at noMark)
  have ended : Advance pos targets middle t := by
    cases instr with
    | op code =>
        dsimp only at ends
        split at ends
        · obtain ⟨_, marked, rfl⟩ := Gen.onFrame_eq_ok.mp ends
          cases marked
          exact of_frame rfl rfl rfl
        · obtain ⟨_, rfl⟩ := pure_eq_ok.mp ends
          exact refl pos targets _
    | _ =>
        obtain ⟨_, rfl⟩ := pure_eq_ok.mp ends
        exact refl pos targets _
  exact written.trans ended List.suffix_rfl fun _ mem => .inl mem

theorem of_jump {code : Opcode} {target : Label} (run : Gen.jump ctx code target s = .ok () t) :
    Advance pos [target] s t := by
  obtain ⟨marks, -, -, records⟩ := Gen.jump_marks run
  have noLabels : placed (written s t) = [] := by
    rw [marks.written_eq]
    exact placed_singleton_of_ne (by simp)
  exact
    { toLater := marks.later records
      code_eq := marks.code_eq
      placed_nodup := by simp [noLabels]
      placed_range := by simp [noLabels]
      probed_below := fun p ty found => .inl (marks.probed_eq ▸ found) }

/-- The end of an operation may only forget types. -/
theorem of_leave (pos : Position) (targets : List Label) (s : State) (depth : Nat) :
    Advance pos targets s (s.leave depth) := by
  have still : Advance pos targets s { s with depth } := of_frame rfl rfl rfl
  refine { still with probed_below := fun p ty found => ?_ }
  simp only [State.leave] at found
  split at found
  · simp at found
  · exact .inl found

end Advance

/-! ## Runs -/

namespace Gen

variable {α : Type} {ctx : Context} {pairing : Pairing} {pos : Position} {targets : List Label}

/-- What a dry run remembers is below the operand's position. -/
theorem probe_advance {operand : Operand} {s t : State} {ty : JType}
    (inside : pos <:+ operand.position)
    (dryAdvance : ∀ {dry}, operand.code s.dryRun = .ok () dry → Advance pos targets s.dryRun dry)
    (run : probe ctx operand s = .ok ty t) : Advance pos targets s t := by
  obtain ⟨frame, output, -, memory⟩ := probe_ok run
  have still : Advance pos targets s { s with frame := t.frame, output := t.output } :=
    Advance.of_frame output (congrArg Frame.shapes frame) rfl
  refine { still with probed_below := fun p found known => ?_ }
  rcases memory with ⟨-, same⟩ | ⟨dry, dryRun, empty | same | inserted⟩
  · exact .inl (same ▸ known)
  · simp [empty] at known
  · exact .inl (same ▸ known)
  · rw [inserted, Std.TreeMap.getElem?_insert] at known
    split at known
    · rename_i isPosition
      have isPosition : operand.position = p := by simpa using isPosition
      exact .inr (isPosition ▸ inside)
    · exact (dryAdvance (value_eq_ok.mp dryRun).1).probed_below p found known

/-- A run carries on the building of a larger one: labels that it hands out are
added to those of the larger run, and what is left pending is pending there. -/
theorem Parallel.building {live : Bool} {heads pending after : List (Label × Label)}
    {x x' : Gen α} (parallel : Parallel ctx pairing live heads pending x x' after)
    (inside : ∀ p p', pairing.positions p p' → pos <:+ p) {s₀ s t : State} {mine : List Label}
    {a : α} (building : Building pos targets mine (pending.map Prod.fst) s₀ s)
    (known : ∀ pair ∈ heads, pair.1 ∈ targets ∨ pair.1 ∈ mine) (run : x s = .ok a t) :
    ∃ mine', mine ⊆ mine' ∧ Building pos targets mine' (after.map Prod.fst) s₀ t := by
  induction parallel generalizing targets s₀ s t mine with
  | pure b =>
      obtain ⟨_, rfl⟩ := pure_eq_ok.mp run
      exact ⟨mine, List.Subset.refl _, building⟩
  | throw same => exact (throw_eq_ok.mp run).elim
  | bind _ _ ihFirst ihRest =>
      obtain ⟨b, u, ran, rest⟩ := bind_eq_ok.mp run
      obtain ⟨mine₁, grown, building⟩ := ihFirst building known ran
      obtain ⟨mine₂, grown', building⟩ := ihRest b building
        (fun pair mem => (known pair mem).imp_right (grown ·)) rest
      exact ⟨mine₂, List.Subset.trans grown grown', building⟩
  | onFrame quiet =>
      obtain ⟨frame, ran, rfl⟩ := onFrame_eq_ok.mp run
      have advance : Advance pos targets s { s with frame } :=
        .of_frame rfl (quiet.shapes_eq ran) rfl
      exact ⟨mine, List.Subset.refl _, building.step advance List.suffix_rfl (by simp)⟩
  | emit noMark =>
      exact ⟨mine, List.Subset.refl _,
        building.step (.of_emit noMark run : Advance pos targets s t) List.suffix_rfl (by simp)⟩
  | newLabel _ ih =>
      obtain ⟨label, u, allocated, rest⟩ := bind_eq_ok.mp run
      have wider : mine ⊆ label :: mine := List.subset_cons_self label mine
      obtain ⟨mine', grown, building⟩ := ih label label (building.allocate allocated)
        (fun pair mem => (known pair mem).imp_right (wider ·)) rest
      exact ⟨mine', List.Subset.trans wider grown, building⟩
  | jump code isKnown =>
      refine ⟨mine, List.Subset.refl _, building.step (.of_jump run) List.suffix_rfl ?_⟩
      refine List.cons_subset.mpr ⟨List.mem_append.mpr ?_, List.nil_subset _⟩
      rcases List.mem_append.mp isKnown with isHead | isPending
      · exact known _ isHead
      · exact .inr (building.pending_subset (List.mem_map_of_mem isPending))
  | place isPending =>
      have building := (building.perm (isPending.map Prod.fst)).place (by simp) run
      exact ⟨mine, List.Subset.refl _, by simpa using building⟩
  | @head heads pending after after' label label' α f f' isPending _ ih =>
      obtain ⟨_, u, placed, rest⟩ := bind_eq_ok.mp run
      have building := building.perm (isPending.map Prod.fst)
      have isMine : label ∈ mine := building.pending_subset (by simp)
      have building := building.place (by simp) placed
      exact ih (by simpa using building) (List.forall_mem_cons.mpr ⟨.inr isMine, known⟩) rest
  | value _ ih => exact ih building known (value_eq_ok.mp run).1
  | operation name _ ih =>
      obtain ⟨-, u, ran, rfl⟩ := operation_eq_ok.mp run
      have entered : Advance pos targets s { s with depth := s.depth + 1 } := .of_frame rfl rfl rfl
      have building := building.step entered List.suffix_rfl (by simp)
      obtain ⟨mine', grown, building⟩ := ih building known ran
      exact ⟨mine', grown,
        building.step (.of_leave pos targets u s.depth) List.suffix_rfl (by simp)⟩
  | probe positions _ ih =>
      have advance : Advance pos targets s t := by
        apply probe_advance (inside _ _ positions) _ run
        intro dry ran
        obtain ⟨mine', -, building⟩ := ih (Building.start pos targets s.dryRun) (by simp) ran
        exact building.toAdvance
      exact ⟨mine, List.Subset.refl _, building.step advance List.suffix_rfl (by simp)⟩

/-- An action advances if it places the labels that it hands out. -/
theorem Parallel.advances {live : Bool} {heads : List (Label × Label)} {x x' : Gen α}
    (parallel : Parallel ctx pairing live heads [] x x' [])
    (inside : ∀ p p', pairing.positions p p' → pos <:+ p)
    (known : ∀ pair ∈ heads, pair.1 ∈ targets) : Advances pos targets x := by
  intro s a t run
  obtain ⟨mine, -, building⟩ := parallel.building inside (Building.start pos targets s)
    (fun pair mem => .inl (known pair mem)) run
  exact building.toAdvance

end Gen

/-! ## Bodies -/

/-- Positions below a position, which correspond to themselves. -/
def Pairing.below (pos : Position) : Pairing where
  positions p p' := p = p' ∧ pos <:+ p
  positions_inj := by
    rintro p _ q _ ⟨rfl, _⟩ ⟨rfl, _⟩
    rfl
  errors := Eq
  errors_refl _ := rfl

theorem Pairing.below_covers {outer pos : Position} (inside : outer <:+ pos)
    (operandAt? : List Nat → Option Fragment) :
    (Pairing.below outer).Covers pos pos operandAt? :=
  fun path _ _ => ⟨rfl, inside.trans (List.suffix_append path.reverse pos)⟩

open Gen

variable (ctx : Context) (pos : Position)

theorem Op.body_advances (targets : List Label) (op : Op) : Advances pos targets (op.body ctx pos) :=
  (op.body_parallel ctx (.below pos) pos pos (Pairing.below_covers List.suffix_rfl _) [] []).advances
    (fun _ _ below => below.2) (by simp)

theorem codeFrom_advances (index : Nat) (targets : List Label) (ops : List Op) {outer : Position}
    (inside : outer <:+ pos) : Advances outer targets (codeFrom ctx pos index ops) :=
  (codeFrom_alike ctx (.below outer) pos pos index ops (Pairing.below_covers inside _) false [] []).advances
    (fun _ _ below => below.2) (by simp)

/-- A branch at a position whose runs advance. -/
def Gen.Advances.OfBranch (pos : Position) (branch : Branch) : Prop :=
  ∀ ⦃targets target⦄, target ∈ targets → ∀ sense, Advances pos targets (branch sense target)

theorem Cond.branch_advances (c : Cond) {outer : Position} (inside : outer <:+ pos) :
    Advances.OfBranch outer (c.branch ctx pos) := by
  intro targets target isTarget sense
  have alike := c.branch_alike ctx (.below outer) pos pos (Pairing.below_covers inside _) sense
  rw [Bool.xor_false] at alike
  have parallel := alike (show (target, target) ∈ [(target, target)] ++ [] by simp) false
  exact parallel.advances (fun _ _ below => below.2) (by simpa using isTarget)

theorem Gen.Advances.operation {pos : Position} {targets : List Label} (name : String)
    {body : Gen Unit} (advances : Advances pos targets body) :
    Advances pos targets (operation name body) := by
  intro s _ t run
  obtain ⟨-, u, ran, rfl⟩ := operation_eq_ok.mp run
  have entered : Advance pos targets s { s with depth := s.depth + 1 } := .of_frame rfl rfl rfl
  have inner := entered.trans (advances ran) List.suffix_rfl fun _ mem => .inl mem
  exact inner.trans (.of_leave pos targets u s.depth) List.suffix_rfl fun _ mem => .inl mem

end JvmAssembler
