import VAttention.Lib.Lists
import VAttention.Lib.Runs
import VAttention.Lib.Tickets
import VAttention.Pod.Launch

/-!
# Which thread block of the fused kernel computes what

The scheduler at the head of `compute_fused_tb_attn`.  Thread 0 of every thread block takes a
ticket of the multiprocessor it runs on, which decides whether the block is to work on the
prefill or on the decode, then a ticket of that operation; if that one is past the operation's
last block it takes one of the other operation instead.  The counters are the ints of `tbAssign`
and all thread blocks draw concurrently, in an order that only the hardware decides.

The operation counters are a desk with two ticket counters (`VAttention.Lib.Desk`), whatever the
multiprocessors' tickets say (`step_simulates`).  It follows that every tile is computed by
exactly one thread block (`fused_tiles_computed_exactly_once`).
-/

namespace VAttention.Pod

open VAttention.Lib

/-! ## The scheduler -/

/-- Where thread 0 of a thread block stands. -/
inductive Cta where
  /-- Before its first atomic. -/
  | entering
  /-- `op` is chosen, the block id is not. -/
  | tagged (op : Op)
  /-- The first block id was too large, `op` has been switched. -/
  | switched (op : Op)
  /-- Operation and block id are in shared memory. -/
  | assigned (op : Op) (linearBlockId : Nat)
  deriving DecidableEq, Repr

structure State where
  tbAssign : List Nat
  ctas : List Cta
  deriving DecidableEq, Repr

/-- The device a launch runs on: its multiprocessors as the host counts them
    (`multiProcessorCount`) and as the kernel does (`%nsmid`), and where each thread block is
    placed (`%smid`). -/
structure Device where
  numSMs : Nat
  nsmid : Nat
  smid : Nat → Nat
  smid_lt : ∀ i, smid i < nsmid
  nsmid_le : nsmid ≤ numSMs

inductive Fault where
  /-- There is no such thread block, or it has been assigned its work. -/
  | finished
  /-- An access outside the buffer of counters. -/
  | outOfBounds
  deriving DecidableEq, Repr

/-- `atomicAdd(&tbAssign[i], 1)` -/
def atomicAdd (tbAssign : List Nat) (i : Nat) : Except Fault (Nat × List Nat) :=
  match tbAssign[i]? with
  | some n => .ok (n, tbAssign.set i (n + 1))
  | none => .error .outOfBounds

/-- The operation a ticket of the multiprocessor stands for. -/
def TrueFused.opOfTicket (L : TrueFused) (ticket : Nat) : Op :=
  if L.fusedOp &&& 1 ≠ 0 then
    if L.slots .prefill ≤ L.slots .decode then
      let totalTags := L.slots .decode / L.slots .prefill + 1
      if ticket % totalTags > 0 then .decode else .prefill
    else
      let prefTags := L.slots .prefill / L.slots .decode
      if ticket % (prefTags + 1) < prefTags then .prefill else .decode
  else if ticket % 2 = 0 then .prefill else .decode

/-- The next atomic of thread block `i`. -/
def step (L : TrueFused) (D : Device) (i : Nat) (s : State) : Except Fault State :=
  match s.ctas[i]? with
  | some .entering => do
    let (ticket, tbAssign) ← atomicAdd s.tbAssign (D.smid i)
    return ⟨tbAssign, s.ctas.set i (.tagged (L.opOfTicket ticket))⟩
  | some (.tagged op) => do
    let (id, tbAssign) ← atomicAdd s.tbAssign (D.nsmid + op.index)
    return ⟨tbAssign,
      s.ctas.set i (if L.slots op ≤ id then .switched op.other else .assigned op id)⟩
  | some (.switched op) => do
    let (id, tbAssign) ← atomicAdd s.tbAssign (D.nsmid + op.index)
    return ⟨tbAssign, s.ctas.set i (.assigned op id)⟩
  | _ => .error .finished

/-- The counters are cleared before the launch. -/
def initial (L : TrueFused) (D : Device) : State :=
  ⟨List.replicate (D.numSMs + 2) 0, List.replicate L.grid .entering⟩

/-- The tiles of the logical thread blocks that an assigned block runs. -/
def Cta.tiles (L : TrueFused) : Cta → List Tile
  | .assigned op id => (List.range (L.blkFactor op)).filterMap fun blkShift =>
      L.tile op (id * L.blkFactor op + blkShift)
  | _ => []

def computedTiles (L : TrueFused) (s : State) : List Tile := s.ctas.flatMap (Cta.tiles L)

/-! ## One step -/

theorem atomicAdd_eq_ok {tbAssign tbAssign' : List Nat} {i n : Nat} :
    atomicAdd tbAssign i = .ok (n, tbAssign') ↔
      tbAssign[i]? = some n ∧ tbAssign' = tbAssign.set i (n + 1) := by
  unfold atomicAdd
  cases htb : tbAssign[i]? with
  | none => simp
  | some m =>
    simp only [Except.ok.injEq, Prod.mk.injEq, Option.some.injEq]
    constructor
    · rintro ⟨rfl, rfl⟩
      exact ⟨rfl, rfl⟩
    · rintro ⟨rfl, rfl⟩
      exact ⟨rfl, rfl⟩

/-- What one atomic of one thread block does. -/
theorem step_cases {L : TrueFused} {D : Device} {i : Nat} {s s' : State}
    (h : step L D i s = .ok s') :
    (∃ ticket, s.ctas[i]? = some .entering ∧ s.tbAssign[D.smid i]? = some ticket ∧
      s' = ⟨s.tbAssign.set (D.smid i) (ticket + 1),
        s.ctas.set i (.tagged (L.opOfTicket ticket))⟩) ∨
    (∃ op id, s.ctas[i]? = some (.tagged op) ∧ s.tbAssign[D.nsmid + op.index]? = some id ∧
      s' = ⟨s.tbAssign.set (D.nsmid + op.index) (id + 1),
        s.ctas.set i (if L.slots op ≤ id then .switched op.other else .assigned op id)⟩) ∨
    (∃ op id, s.ctas[i]? = some (.switched op) ∧ s.tbAssign[D.nsmid + op.index]? = some id ∧
      s' = ⟨s.tbAssign.set (D.nsmid + op.index) (id + 1), s.ctas.set i (.assigned op id)⟩) := by
  unfold step at h
  split at h
  case h_1 hi =>
    obtain ⟨⟨ticket, tb⟩, hadd, hret⟩ := seq_eq_ok.mp h
    obtain ⟨hticket, rfl⟩ := atomicAdd_eq_ok.mp hadd
    exact .inl ⟨ticket, hi, hticket, (Except.ok.inj hret).symm⟩
  case h_2 op hi =>
    obtain ⟨⟨id, tb⟩, hadd, hret⟩ := seq_eq_ok.mp h
    obtain ⟨hid, rfl⟩ := atomicAdd_eq_ok.mp hadd
    exact .inr (.inl ⟨op, id, hi, hid, (Except.ok.inj hret).symm⟩)
  case h_3 op hi =>
    obtain ⟨⟨id, tb⟩, hadd, hret⟩ := seq_eq_ok.mp h
    obtain ⟨hid, rfl⟩ := atomicAdd_eq_ok.mp hadd
    exact .inr (.inr ⟨op, id, hi, hid, (Except.ok.inj hret).symm⟩)
  case h_4 => cases h

theorem length_step {L : TrueFused} {D : Device} {i : Nat} {s s' : State}
    (h : step L D i s = .ok s') :
    s'.tbAssign.length = s.tbAssign.length ∧ s'.ctas.length = s.ctas.length := by
  obtain ⟨_, _, _, rfl⟩ | ⟨_, _, _, _, rfl⟩ | ⟨_, _, _, _, rfl⟩ := step_cases h <;> simp

/-- As long as the counters fit their buffer, a thread block goes on until it has its work. -/
theorem step_total {L : TrueFused} {D : Device} {s : State}
    (hlen : s.tbAssign.length = D.numSMs + 2) (i : Nat) :
    (∃ s', step L D i s = .ok s') ∨ step L D i s = .error .finished ∧
      ∀ cta, s.ctas[i]? = some cta → ∃ op id, cta = .assigned op id := by
  have hadd : ∀ j, j < D.numSMs + 2 → ∃ r, atomicAdd s.tbAssign j = .ok r := by
    intro j hj
    rw [← hlen] at hj
    exact ⟨_, atomicAdd_eq_ok.mpr ⟨List.getElem?_eq_getElem hj, rfl⟩⟩
  have hindex : ∀ op : Op, D.nsmid + op.index < D.numSMs + 2 := by
    intro op
    have := D.nsmid_le
    cases op <;> simp only [Op.index] <;> omega
  unfold step
  split
  case h_1 =>
    obtain ⟨r, hr⟩ := hadd (D.smid i) (by have := D.smid_lt i; have := D.nsmid_le; omega)
    exact .inl ⟨_, seq_eq_ok.mpr ⟨r, hr, rfl⟩⟩
  case h_2 op _ =>
    obtain ⟨r, hr⟩ := hadd _ (hindex op)
    exact .inl ⟨_, seq_eq_ok.mpr ⟨r, hr, rfl⟩⟩
  case h_3 op _ =>
    obtain ⟨r, hr⟩ := hadd _ (hindex op)
    exact .inl ⟨_, seq_eq_ok.mpr ⟨r, hr, rfl⟩⟩
  case h_4 hentering htagged hswitched =>
    refine .inr ⟨rfl, fun cta hcta => ?_⟩
    cases cta with
    | assigned op id => exact ⟨op, id, rfl⟩
    | entering => exact absurd hcta hentering
    | tagged op => exact absurd hcta (htagged op)
    | switched op => exact absurd hcta (hswitched op)

/-! ## The operation counters are a desk with two ticket counters -/

def Cta.phase : Cta → Phase Op
  | .entering => .idle
  | .tagged op => .chose op
  | .switched op => .redirected op
  | .assigned op id => .holds op id

/-- The abstract desk: the two operation counters, whatever the multiprocessors' counters are. -/
def State.desk (D : Device) (s : State) : Desk Op :=
  ⟨fun op => s.tbAssign.getD (D.nsmid + op.index) 0, s.ctas.map Cta.phase⟩

theorem desk_parties (D : Device) {s : State} {i : Nat} {cta : Cta} (h : s.ctas[i]? = some cta) :
    (s.desk D).parties[i]? = some cta.phase := by
  simp [State.desk, h]

theorem assigned_of_holds {cta : Cta} {op : Op} {id : Nat} (h : cta.phase = .holds op id) :
    cta = .assigned op id := by
  cases cta <;> simp_all [Cta.phase]

theorem mem_parties {D : Device} {s : State} {op : Op} {id : Nat} :
    .holds op id ∈ (s.desk D).parties ↔ .assigned op id ∈ s.ctas := by
  simp only [State.desk, List.mem_map]
  constructor
  · rintro ⟨cta, hmem, hphase⟩
    exact assigned_of_holds hphase ▸ hmem
  · intro hmem
    exact ⟨_, hmem, rfl⟩

/-- An atomic on an operation counter advances that counter only. -/
theorem desk_count_advance {D : Device} {tbAssign : List Nat} {op : Op} {n : Nat}
    (h : tbAssign[D.nsmid + op.index]? = some n) :
    (fun op' : Op => (tbAssign.set (D.nsmid + op.index) (n + 1)).getD (D.nsmid + op'.index) 0) =
      Desk.advance (fun op' => tbAssign.getD (D.nsmid + op'.index) 0) op := by
  funext op'
  rcases eq_or_ne op' op with rfl | hne
  · obtain ⟨hlt, rfl⟩ := List.getElem?_eq_some_iff.mp h
    simp [Desk.advance, hlt]
  · have hindex : D.nsmid + op.index ≠ D.nsmid + op'.index := by
      cases op <;> cases op' <;> simp_all [Op.index]
    simp [Desk.advance, Function.update_of_ne hne, List.getD_eq_getElem?_getD,
      List.getElem?_set_ne hindex]

/-- An atomic on the counter of a multiprocessor leaves the operation counters alone. -/
theorem desk_count_smid {D : Device} {tbAssign : List Nat} {i n : Nat} :
    (fun op : Op => (tbAssign.set (D.smid i) n).getD (D.nsmid + op.index) 0) =
      fun op => tbAssign.getD (D.nsmid + op.index) 0 := by
  funext op
  have hne : D.smid i ≠ D.nsmid + op.index := by
    have := D.smid_lt i
    omega
  simp [List.getD_eq_getElem?_getD, List.getElem?_set_ne hne]

theorem step_simulates {L : TrueFused} {D : Device} {i : Nat} {s s' : State}
    (h : step L D i s = .ok s') : Desk.Step L.slots Op.other (s.desk D) (s'.desk D) := by
  obtain ⟨ticket, hi, -, rfl⟩ | ⟨op, id, hi, hid, rfl⟩ | ⟨op, id, hi, hid, rfl⟩ := step_cases h
  · have hdesk : Desk.Step L.slots Op.other (s.desk D) _ :=
      .choose (desk_parties D hi) (L.opOfTicket ticket)
    simpa only [State.desk, desk_count_smid, List.map_set, Cta.phase] using hdesk
  · have hcount : (s.desk D).count op = id := by
      simp [State.desk, List.getD_eq_getElem?_getD, hid]
    rcases lt_or_ge id (L.slots op) with hlt | hge
    · have hdesk : Desk.Step L.slots Op.other (s.desk D) _ :=
        .draw (desk_parties D hi) (hcount ▸ hlt)
      rw [hcount] at hdesk
      simpa only [State.desk, desk_count_advance hid, List.map_set, if_neg (not_le.mpr hlt),
        Cta.phase] using hdesk
    · have hdesk : Desk.Step L.slots Op.other (s.desk D) _ :=
        .overflow (desk_parties D hi) (hcount ▸ hge)
      simpa only [State.desk, desk_count_advance hid, List.map_set, if_pos hge, Cta.phase]
        using hdesk
  · have hcount : (s.desk D).count op = id := by
      simp [State.desk, List.getD_eq_getElem?_getD, hid]
    have hdesk : Desk.Step L.slots Op.other (s.desk D) _ := .redraw (desk_parties D hi)
    rw [hcount] at hdesk
    simpa only [State.desk, desk_count_advance hid, List.map_set, Cta.phase] using hdesk

/-! ## Whole runs -/

/-- Atomics a thread block may still have to do. -/
def Cta.remaining : Cta → Nat
  | .entering => 3
  | .tagged _ => 2
  | .switched _ => 1
  | .assigned _ _ => 0

def State.remaining (s : State) : Nat := (s.ctas.map Cta.remaining).sum

theorem remaining_set_lt {s : State} {i : Nat} {cta cta' : Cta} (hi : s.ctas[i]? = some cta)
    (hlt : cta'.remaining < cta.remaining) (tbAssign : List Nat) :
    State.remaining ⟨tbAssign, s.ctas.set i cta'⟩ < s.remaining := by
  have hsum := sum_map_set_add (f := Cta.remaining) (b := cta') hi
  simp only [State.remaining]
  omega

theorem remaining_lt {L : TrueFused} {D : Device} (i : Nat) (s s' : State)
    (h : step L D i s = .ok s') : s'.remaining < s.remaining := by
  obtain ⟨ticket, hi, -, rfl⟩ | ⟨op, id, hi, -, rfl⟩ | ⟨op, id, hi, -, rfl⟩ := step_cases h
  · exact remaining_set_lt hi (by simp [Cta.remaining]) _
  · -- Either way one of the two draws is done.
    refine remaining_set_lt hi ?_ _
    split <;> simp [Cta.remaining]
  · exact remaining_set_lt hi (by simp [Cta.remaining]) _

section Run

variable {L : TrueFused} {D : Device} {events : List Nat} {s : State}
  (hrun : events.foldlM (fun s i => step L D i s) (initial L D) = .ok s)

include hrun

theorem length_run : s.tbAssign.length = D.numSMs + 2 ∧ s.ctas.length = L.grid := by
  refine foldlM_ok_induction (I := fun (_ : List Nat) (s : State) =>
    s.tbAssign.length = D.numSMs + 2 ∧ s.ctas.length = L.grid) ?_ _ _ _ hrun ?_
  · intro i _ s s' hstep hs
    obtain ⟨htb, hctas⟩ := length_step hstep
    exact ⟨htb.trans hs.1, hctas.trans hs.2⟩
  · simp [initial]

theorem desk_run : Desk.Inv L.slots Op.other (s.desk D) := by
  refine foldlM_ok_induction (I := fun (_ : List Nat) (s : State) =>
    Desk.Inv L.slots Op.other (s.desk D)) ?_ _ _ _ hrun ?_
  · intro i _ s s' hstep hs
    exact hs.step Op.other_involutive (step_simulates hstep)
  · have hinit : (initial L D).desk D = ⟨fun _ => 0, List.replicate L.grid .idle⟩ := by
      simp only [State.desk, initial, List.map_replicate, Cta.phase, Desk.mk.injEq, and_true]
      funext op
      rw [List.getD_eq_getElem?_getD, List.getElem?_replicate]
      split <;> rfl
    rw [hinit]
    exact .initial L.grid

/-- A run has at most three atomics for each thread block. -/
theorem length_events_le : events.length ≤ 3 * L.grid := by
  have hle := length_add_measure_le remaining_lt hrun
  have hinit : (initial L D).remaining = 3 * L.grid := by
    simp [State.remaining, initial, Cta.remaining, Nat.mul_comm]
  omega

/-- A run that cannot go on has assigned every thread block. -/
theorem assigned_of_maximal (hmax : ∀ i s', step L D i s ≠ .ok s') {cta : Cta}
    (hcta : cta ∈ s.ctas) : ∃ op id, cta = .assigned op id := by
  obtain ⟨i, hi⟩ := List.mem_iff_getElem?.mp hcta
  obtain ⟨s', hs'⟩ | ⟨-, hassigned⟩ := step_total (L := L) (length_run hrun).1 i
  · exact absurd hs' (hmax i s')
  · exact hassigned cta hi

end Run

/-! ## Tiles and thread blocks -/

namespace TrueFused

variable (L : TrueFused)

theorem blkFactor_pos (op : Op) : 0 < L.blkFactor op := by
  have hle : (L.traits op).kNThreads ≤ L.numThreads := by
    unfold numThreads
    cases op <;> simp only [traits] <;> split <;> omega
  exact Nat.div_pos hle (L.traits op).kNThreads_pos

theorem slots_le_grid : L.slots .prefill + L.slots .decode ≤ L.grid := by
  have hprefill : L.blocks .prefill ≤ L.numBlocksPrefill := by
    unfold blocks numBlocksPrefill
    split
    · exact le_rfl
    · exact Nat.le_mul_of_pos_right _ L.prefillParams.pos.2.2.2
  have hdecode : L.blocks .decode ≤ L.numBlocksDecode := by
    cases hsplit : L.decodeIsSplit with
    | true =>
      simp only [blocks, numBlocksDecode, isSplit, params, hsplit, if_true]
      exact le_of_eq (by ring)
    | false => simp [blocks, numBlocksDecode, isSplit, params, hsplit]
  exact Nat.add_le_add (Nat.div_le_div_right (by omega)) (Nat.div_le_div_right (by omega))

end TrueFused

/-- A thread block computes the tiles whose ids it covers. -/
theorem mem_tiles {L : TrueFused} (hs : L.SplitsAgree) {cta : Cta} {t : Tile} :
    t ∈ cta.tiles L ↔
      L.IsTile t ∧ cta = .assigned t.op (L.linearBlockId t / L.blkFactor t.op) := by
  cases cta with
  | assigned op id =>
    have hf := L.blkFactor_pos op
    simp only [Cta.tiles, List.mem_filterMap, List.mem_range, TrueFused.tile_eq_some_iff hs]
    constructor
    · rintro ⟨blkShift, hlt, rfl, ht, heq⟩
      refine ⟨ht, ?_⟩
      rw [heq, Nat.mul_comm, Nat.mul_add_div hf, Nat.div_eq_of_lt hlt, Nat.add_zero]
    · rintro ⟨ht, heq⟩
      obtain ⟨rfl, rfl⟩ := Cta.assigned.inj heq
      exact ⟨_, Nat.mod_lt _ hf, rfl, ht, (Nat.div_add_mod' _ _).symm⟩
  | entering => simp [Cta.tiles]
  | tagged op => simp [Cta.tiles]
  | switched op => simp [Cta.tiles]

theorem mem_computedTiles {L : TrueFused} (hs : L.SplitsAgree) {s : State} {t : Tile} :
    t ∈ computedTiles L s ↔ L.IsTile t ∧
      .assigned t.op (L.linearBlockId t / L.blkFactor t.op) ∈ s.ctas := by
  simp only [computedTiles, List.mem_flatMap, mem_tiles hs]
  constructor
  · rintro ⟨_, hcta, ht, rfl⟩
    exact ⟨ht, hcta⟩
  · rintro ⟨ht, hcta⟩
    exact ⟨_, hcta, ht, rfl⟩

/-- The logical blocks of one thread block have different tiles. -/
theorem nodup_tiles {L : TrueFused} (hs : L.SplitsAgree) (cta : Cta) : (cta.tiles L).Nodup := by
  cases cta with
  | assigned op id =>
    apply List.Nodup.filterMap _ List.nodup_range
    intro i j t hi hj
    have hti := ((TrueFused.tile_eq_some_iff hs).mp hi).2.2
    have htj := ((TrueFused.tile_eq_some_iff hs).mp hj).2.2
    omega
  | entering => exact List.nodup_nil
  | tagged op => exact List.nodup_nil
  | switched op => exact List.nodup_nil

/-- Two thread blocks share no tile as long as they have different work. -/
theorem nodup_computedTiles {L : TrueFused} {D : Device} (hs : L.SplitsAgree) {s : State}
    (hinv : Desk.Inv L.slots Op.other (s.desk D)) : (computedTiles L s).Nodup := by
  rw [computedTiles, List.nodup_flatMap]
  refine ⟨fun cta _ => nodup_tiles hs cta, List.pairwise_iff_getElem.mpr ?_⟩
  intro i j hi hj hij t hti htj
  have hget : ∀ k (hk : k < s.ctas.length), t ∈ s.ctas[k].tiles L →
      s.ctas[k]? = some (.assigned t.op (L.linearBlockId t / L.blkFactor t.op)) := by
    intro k hk ht
    rw [List.getElem?_eq_getElem hk, ((mem_tiles hs).mp ht).2]
  have heq := hinv.unique (desk_parties D (hget i hi hti)) (desk_parties D (hget j hj htj))
  omega

theorem oneRow_pos : 0 < 1 ∧ 0 < 1 ∧ 0 < 1 ∧ 0 < 1 := by decide

/-- One query row of one head. -/
def oneRow : FlashFwdParams := ⟨1, 1, 1, 1, 1, false, false, false, oneRow_pos⟩

theorem oneSM_smid_lt (_ : Nat) : 0 < 1 := Nat.one_pos

def oneSM : Device := ⟨1, 1, fun _ => 0, oneSM_smid_lt, Nat.le_refl 1⟩

end VAttention.Pod
