import HouseOS.Pty.Model

namespace HouseOS.Pty

open HouseOS.Run (Traces answers traces_of_step along_of_forall)
open HouseOS.Window (Spells Stream recent recent_of_full recent_of_le recent_recent_append)

section Rings

variable {r : Ring} {l : List UInt8}

def Ring.Spells (r : Ring) (l : List UInt8) : Prop :=
  Window.Spells ptyRingSize r.data r.head r.tail r.count l

namespace Ring

theorem spells_reset (r : Ring) : r.reset.Spells [] := Spells.empty (by decide)

theorem spells_push_byte (h : r.Spells l) (c : UInt8) :
    (r.dropOldest.append c).Spells (recent ptyRingSize (l ++ [c])) := by
  have hroom := h.room
  have hlen := h.length
  by_cases hfull : ptyRingSize ≤ r.count
  · have hcount : r.count = (r.count - 1) + 1 := by
      have hpos : 0 < ptyRingSize := by decide
      omega
    unfold Ring.Spells at h
    rw [hcount] at h
    rw [dropOldest, if_pos hfull, recent_of_full (by decide) (by omega)]
    exact h.pop.2.push (by omega) c
  · rw [dropOldest, if_neg hfull, recent_of_le (by rw [List.length_append, List.length_singleton]; omega)]
    exact Window.Spells.push h (by omega) c

theorem spells_push (h : r.Spells l) (cs : List UInt8) :
    (r.push cs).Spells (recent ptyRingSize (l ++ cs)) := by
  induction cs generalizing r l with
  | nil =>
    have hroom := h.room
    have hlen := h.length
    rwa [push, List.append_nil, recent_of_le (by omega)]
  | cons c cs ih =>
    have hnext := ih (spells_push_byte h c)
    rwa [recent_recent_append, List.append_assoc] at hnext

theorem spells_pop (h : r.Spells l) (n : Nat) :
    (r.pop n).1 = l.take n ∧ (r.pop n).2.Spells (l.drop n) := by
  induction n generalizing r l with
  | zero => exact ⟨rfl, h⟩
  | succ n ih =>
    have hlen := h.length
    rw [pop]
    split
    next hpos =>
      have hcount : r.count = (r.count - 1) + 1 := by omega
      unfold Ring.Spells at h
      rw [hcount] at h
      obtain ⟨hl, hrest⟩ := h.pop
      obtain ⟨hbytes, hring⟩ := ih (r := { r with head := (r.head + 1) % ptyRingSize, count := r.count - 1 }) hrest
      dsimp only
      rw [hl, List.take_succ_cons, List.drop_succ_cons, hbytes]
      exact ⟨rfl, hring⟩
    next hzero =>
      have hnil : l = [] := List.length_eq_zero_iff.mp (by omega)
      subst hnil
      exact ⟨rfl, h⟩

end Ring

end Rings

section Ends

variable {s : State} {d e : Dev} {r : Ring} {p : Pair} {i : Fin ptyPairCount}

def Dev.peer (d : Dev) : Dev := { d with isMaster := !d.isMaster }

theorem dst_eq_src : s.dst d = s.src d.peer := by
  rw [State.dst, State.src, Dev.peer]
  cases d.isMaster <;> rfl

theorem setDst_eq_setSrc : s.setDst d r = s.setSrc d.peer r := by
  rw [State.setDst, State.setSrc, Dev.peer]
  cases d.isMaster <;> rfl

theorem pairs_setPair (j : Fin ptyPairCount) :
    (s.setPair i p).pairs j = if j = i then p else s.pairs j :=
  Function.update_apply s.pairs i p j

theorem src_setPair : (s.setPair i p).src e =
    if e.index = i then (if e.isMaster then p.slaveToMaster else p.masterToSlave) else s.src e := by
  by_cases he : e.index = i
  · rw [State.src, pairs_setPair, if_pos he, if_pos he]
  · rw [State.src, pairs_setPair, if_neg he, if_neg he, State.src]

theorem src_setSrc : (s.setSrc d r).src e = if e = d then r else s.src e := by
  rw [State.setSrc, src_setPair]
  obtain ⟨i, m⟩ := d
  obtain ⟨j, n⟩ := e
  by_cases h : j = i
  · subst h
    cases m <;> cases n <;> simp [State.src]
  · rw [if_neg h, if_neg (fun heq => h (congrArg Dev.index heq))]

theorem allocated_setPair : (s.setPair i p).allocated e =
    if e.index = i then p.allocated else s.allocated e := by
  rw [State.allocated, pairs_setPair]
  split <;> rfl

theorem allocated_setSrc : (s.setSrc d r).allocated e = s.allocated e := by
  rw [State.setSrc, allocated_setPair]
  split
  next h =>
    rw [State.allocated, h]
    cases d.isMaster <;> rfl
  next => rfl

end Ends

abbrev Sessions : Type := Dev → Stream UInt8

namespace Sessions

variable (h : Sessions)

def fresh : Sessions := fun _ => Stream.fresh

def cleared (i : Nat) : Sessions := fun d => if d.index.val = i then Stream.fresh else h d

def after : Op → Answer → Sessions
  | .ptmx (.alloc _), .pair i _ _ => h.cleared i
  | .ptmx (.free (some i)), .done => h.cleared i
  | .ioctl d .reset, .done => h.cleared d.index
  | .write d (some buf), .written _ => Function.update h d.peer ((h d.peer).write buf)
  | .read d _ size, .bytes _ => Function.update h d ((h d).read ptyRingSize size)
  | .wake d size, .bytes _ => Function.update h d ((h d).read ptyRingSize size)
  | _, _ => h

def queue (d : Dev) : List UInt8 := (h d).queue ptyRingSize

def Answered : Op → Answer → Prop
  | .read d _ size, .bytes got => got = (h.queue d).take size ∧ got ≠ []
  | .wake d size, .bytes got => got = (h.queue d).take size
  | .read d _ _, .sleeps => h.queue d = []
  | .wake d _, .sleeps => h.queue d = []
  | .ioctl d (.getReadable _), .readable n => n = (h.queue d).length
  | .write _ buf, .written n => ∃ l, buf = some l ∧ n = l.length
  | _, _ => True

end Sessions

structure Matches (s : State) (h : Sessions) : Prop where
  rings : ∀ d, (s.src d).Spells (h.queue d)
  idle : ∀ d, s.allocated d = false → h.queue d = []
  sizes : ∀ c ∈ s.asleep, c.2 ≠ 0

section Steps

variable {s : State} {h : Sessions} {d : Dev} {i : Fin ptyPairCount} {p : Pair}

theorem queue_cleared (e : Dev) :
    (h.cleared i).queue e = if e.index = i then [] else h.queue e := by
  rw [Sessions.queue, Sessions.cleared]
  by_cases he : e.index = i
  · rw [if_pos he, if_pos (congrArg Fin.val he), Stream.queue_fresh]
  · rw [if_neg he, if_neg (fun hv => he (Fin.ext hv)), Sessions.queue]

theorem queue_update (q : Stream UInt8) (e : Dev) :
    Sessions.queue (Function.update h d q) e =
      if e = d then q.queue ptyRingSize else h.queue e := by
  rw [Sessions.queue, Function.update_apply]
  split <;> rfl

theorem matches_cleared (hm : Matches s h) (hmaster : p.masterToSlave.Spells [])
    (hslave : p.slaveToMaster.Spells []) : Matches (s.setPair i p) (h.cleared i) where
  rings e := by
    rw [src_setPair, queue_cleared]
    split
    next => split <;> assumption
    next => exact hm.rings e
  idle e he := by
    rw [allocated_setPair] at he
    rw [queue_cleared]
    split
    next => rfl
    next hne =>
      rw [if_neg hne] at he
      exact hm.idle e he
  sizes := hm.sizes

theorem matches_setSrc (hm : Matches s h) {r : Ring} {q : Stream UInt8}
    (hr : r.Spells (q.queue ptyRingSize)) (hidle : s.allocated d = false → q.queue ptyRingSize = []) :
    Matches (s.setSrc d r) (Function.update h d q) where
  rings e := by
    rw [src_setSrc, queue_update]
    split
    next => exact hr
    next => exact hm.rings e
  idle e he := by
    rw [allocated_setSrc] at he
    rw [queue_update]
    split
    next heq =>
      subst heq
      exact hidle he
    next => exact hm.idle e he
  sizes := hm.sizes

theorem readRound_matches (hm : Matches s h) {size : Nat} (hsize : size ≠ 0) :
    (∃ got, (s.readRound d size).1 = .bytes got ∧ got = (h.queue d).take size ∧
        (s.allocated d = true → got ≠ []) ∧
        Matches (s.readRound d size).2 (Function.update h d ((h d).read ptyRingSize size))) ∨
      (s.readRound d size).1 = .sleeps ∧ h.queue d = [] ∧ Matches (s.readRound d size).2 h := by
  obtain ⟨hgot, hring⟩ := Ring.spells_pop (hm.rings d) size
  have hread : ((h d).read ptyRingSize size).queue ptyRingSize = (h.queue d).drop size :=
    (h d).queue_read size
  rw [State.readRound]
  split
  next hsome =>
    refine Or.inl ⟨_, rfl, hgot, fun _ => hsome, matches_setSrc hm (hread ▸ hring) fun hidle => ?_⟩
    rw [hread, hm.idle d hidle, List.drop_nil]
  next hnone =>
    have htake : (h.queue d).take size = [] := hgot.symm.trans (not_not.mp hnone)
    have hempty : h.queue d = [] := (List.take_eq_nil_iff.mp htake).resolve_left hsize
    split
    next hidle =>
      refine Or.inl ⟨[], rfl, htake.symm, fun hall => ?_, ?_⟩
      · exact absurd (hidle.symm.trans hall) Bool.false_ne_true
      · refine ⟨fun e => ?_, fun e he => ?_, hm.sizes⟩
        all_goals
          rw [queue_update, hread, hempty, List.drop_nil]
          split
        · next heq => exact heq ▸ hempty ▸ hm.rings d
        · exact hm.rings e
        · rfl
        · exact hm.idle e he
    next =>
      refine Or.inr ⟨rfl, hempty, hm.rings, hm.idle, fun c hc => ?_⟩
      rcases List.mem_cons.mp hc with rfl | hc
      · exact hsize
      · exact hm.sizes c hc

theorem ptmx_matches (hm : Matches s h) (request : PtmxRequest) :
    Matches (s.ptmxIoctl request).2 (h.after (.ptmx request) (s.ptmxIoctl request).1) := by
  cases request with
  | alloc out =>
    rw [State.ptmxIoctl]
    split
    next => exact hm
    next =>
      split
      next i _ => exact matches_cleared hm (Ring.spells_reset _) (Ring.spells_reset _)
      next => exact hm
  | free arg =>
    cases arg with
    | none => exact hm
    | some idx =>
      rw [State.ptmxIoctl]
      split
      next hidx =>
        exact matches_cleared (i := ⟨idx, hidx⟩) hm (Ring.spells_reset _) (Ring.spells_reset _)
      next => exact hm
  | unknown => exact hm

theorem ioctl_matches (hm : Matches s h) (request : DevRequest) :
    h.Answered (.ioctl d request) (s.ptyDevIoctl d request).1 ∧
      Matches (s.ptyDevIoctl d request).2 (h.after (.ioctl d request) (s.ptyDevIoctl d request).1) := by
  cases request with
  | getReadable arg =>
    rw [State.ptyDevIoctl]
    split
    next => exact ⟨trivial, hm⟩
    next =>
      split
      next hidle => exact ⟨(congrArg List.length (hm.idle d hidle)).symm, hm⟩
      next => exact ⟨(hm.rings d).length.symm, hm⟩
  | reset =>
    rw [State.ptyDevIoctl]
    split
    next => exact ⟨trivial, hm⟩
    next =>
      exact ⟨trivial, matches_cleared hm (Ring.spells_reset _) (Ring.spells_reset _)⟩
  | unknown => exact ⟨trivial, hm⟩

theorem write_matches (hm : Matches s h) (buf : Option (List UInt8)) :
    h.Answered (.write d buf) (s.ptyWrite d buf).1 ∧
      Matches (s.ptyWrite d buf).2 (h.after (.write d buf) (s.ptyWrite d buf).1) := by
  cases buf with
  | none => exact ⟨trivial, hm⟩
  | some buf =>
    have hwrite : ((h d.peer).write buf).queue ptyRingSize =
        recent ptyRingSize (h.queue d.peer ++ buf) := (h d.peer).queue_write buf
    rw [State.ptyWrite]
    split
    next => exact ⟨trivial, hm⟩
    next hall =>
      split
      next hnil =>
        obtain rfl := List.length_eq_zero_iff.mp hnil
        refine ⟨⟨[], rfl, rfl⟩, ?_⟩
        rw [Sessions.after, Stream.write_nil, Function.update_eq_self]
        exact hm
      next =>
        refine ⟨⟨buf, rfl, rfl⟩, ?_⟩
        rw [dst_eq_src, setDst_eq_setSrc]
        refine matches_setSrc hm ?_ fun hidle => absurd hidle hall
        rw [hwrite]
        exact Ring.spells_push (hm.rings d.peer) buf

theorem step_matches (hm : Matches s h) (o : Op) :
    h.Answered o (s.step o).1 ∧ Matches (s.step o).2 (h.after o (s.step o).1) := by
  cases o with
  | ptmx request =>
    refine ⟨?_, ptmx_matches hm request⟩
    cases request <;> exact trivial
  | ioctl d request => exact ioctl_matches hm request
  | read d buf size =>
    rw [State.step, State.ptyRead]
    split
    next => exact ⟨trivial, hm⟩
    next hargs =>
      split
      next => exact ⟨trivial, hm⟩
      next hall =>
        rcases readRound_matches hm (d := d) (fun hz => hargs (Or.inr hz)) with
          ⟨got, hans, hgot, hsome, hmatch⟩ | ⟨hans, hempty, hmatch⟩
        · rw [hans]
          exact ⟨⟨hgot, hsome (Bool.not_eq_false _ ▸ hall)⟩, hmatch⟩
        · rw [hans]
          exact ⟨hempty, hmatch⟩
  | wake d size =>
    rw [State.step, State.ptyWake]
    split
    next hmem =>
      have hm' : Matches { s with asleep := s.asleep.erase (d, size) } h :=
        ⟨hm.rings, hm.idle, fun c hc => hm.sizes c (List.mem_of_mem_erase hc)⟩
      rcases readRound_matches hm' (d := d) (hm.sizes _ hmem) with
        ⟨got, hans, hgot, -, hmatch⟩ | ⟨hans, hempty, hmatch⟩
      · rw [hans]
        exact ⟨hgot, hmatch⟩
      · rw [hans]
        exact ⟨hempty, hmatch⟩
    next => exact ⟨trivial, hm⟩
  | write d buf => exact write_matches hm buf

theorem boot_matches : Matches boot Sessions.fresh where
  rings d := by
    rw [Sessions.queue, Sessions.fresh, Stream.queue_fresh, State.src]
    split <;> exact Spells.empty (by decide)
  idle d _ := Stream.queue_fresh
  sizes c hc := absurd hc List.not_mem_nil

end Steps

structure Ring.Consistent (r : Ring) (l : List UInt8) : Prop where
  head_inside : r.head < ptyRingSize
  tail_inside : r.tail < ptyRingSize
  count_bounded : r.count ≤ ptyRingSize
  tail_eq : r.tail = (r.head + r.count) % ptyRingSize
  count_eq : r.count = l.length

def SessionsKept (ops : List Op) : Prop :=
  ∃ replies s h, answers (fun s o => some (State.step s o)) boot ops = some (replies, s) ∧
    Traces (fun h o a h' => h.Answered o a ∧ h' = h.after o a) Sessions.fresh ops replies h ∧
      ∀ d, (s.src d).Consistent (h.queue d)

theorem sessions_kept (ops : List Op) : SessionsKept ops := by
  have hstep (s : State) (h : Sessions) (o : Op) (hm : Matches s h) (_ : True) :
      ∃ a t h', some (s.step o) = some (a, t) ∧ (h.Answered o a ∧ h' = h.after o a) ∧
        Matches t h' := by
    obtain ⟨hans, hnext⟩ := step_matches hm o
    exact ⟨_, _, _, rfl, ⟨hans, rfl⟩, hnext⟩
  obtain ⟨replies, s, h, hrun, htraces, hm⟩ := traces_of_step hstep ops boot Sessions.fresh
    boot_matches (along_of_forall (fun _ _ => trivial) ops boot)
  refine ⟨replies, s, h, hrun, htraces, fun d => ?_⟩
  have hring := hm.rings d
  exact ⟨hring.inside, hring.tail_inside, hring.room, hring.end_eq, hring.length.symm⟩

end HouseOS.Pty
