import HouseOS.Memfs.Calls

namespace HouseOS.Memfs

open HouseOS.Vfs (Path NodeType)
open World

def Call.isData : Call → Bool
  | .write _ _ _ => true
  | .append _ _ _ => true
  | .read _ _ _ => true
  | _ => false

def after (w : World) (cs : List Call) : World := cs.foldl (fun w c => (answer w c).2) w

def sentBy (i : Nat) (w : World) (c : Call) : List UInt8 :=
  match c with
  | .write f path buf => if w.lookupPath f path = some i ∧ ¬(answer w c).1.failed then buf else []
  | .append f path buf => if w.lookupPath f path = some i ∧ ¬(answer w c).1.failed then buf else []
  | _ => []

def readBy (i : Nat) (w : World) (c : Call) : List UInt8 :=
  match c with
  | .read f path size =>
      if w.lookupPath f path = some i then (w.memfsRead f path size).1.getD [] else []
  | _ => []

def sent (i : Nat) : World → List Call → List UInt8
  | _, [] => []
  | w, c :: cs => sentBy i w c ++ sent i (answer w c).2 cs

def received (i : Nat) : World → List Call → List UInt8
  | _, [] => []
  | w, c :: cs => readBy i w c ++ received i (answer w c).2 cs

variable {w w' : World} {f i j : Nat}

structure Leaves (w w' : World) (i : Nat) : Prop where
  type : (w'.inode i).type = (w.inode i).type
  other : ∀ k, k ≠ i → w'.inode k = w.inode k

theorem streamWrite_cases (h : Sized (w.inode i)) (owner : Nat) (buf : List UInt8) :
    (∃ w', w.streamWrite owner i buf = (-1, w') ∧ w'.inode = w.inode) ∨
      ∃ r w', w.streamWrite owner i buf = (r, w') ∧ 0 ≤ r ∧ Leaves w w' i ∧
        contents (w'.inode i) = contents (w.inode i) ++ buf := by
  rw [World.streamWrite]
  by_cases hbuf : buf.length = 0
  · rw [if_pos hbuf, List.eq_nil_of_length_eq_zero hbuf]
    exact Or.inr ⟨0, w, rfl, Int.le_refl 0, ⟨rfl, fun _ _ => rfl⟩, (List.append_nil _).symm⟩
  · rw [if_neg hbuf, World.extend]
    cases hv : w.valloc ((w.inode i).size + buf.length) with
    | mk ok w₁ =>
      have hinode := valloc_inode w ((w.inode i).size + buf.length)
      rw [hv] at hinode
      cases ok with
      | false => exact Or.inl ⟨w₁, rfl, hinode⟩
      | true =>
        refine Or.inr ⟨_, _, rfl, Int.natCast_nonneg _, ⟨?_, fun k hk => ?_⟩, ?_⟩
        · show ((w₁.setInode i _).inode i).type = _
          rw [setInode_inode, if_pos rfl]
        · show (w₁.setInode i _).inode k = _
          rw [setInode_inode, if_neg hk]
          exact congrFun hinode k
        · show contents ((w₁.setInode i _).inode i) = _
          rw [setInode_inode, if_pos rfl, World.contents]
          exact List.take_of_length_le (by rw [List.length_append, h.contents])

theorem streamRead_cases (h : Sized (w.inode i)) (owner size : Nat) :
    (∃ w', w.streamRead owner i size = (none, w') ∧ w'.inode = w.inode) ∨
      ∃ out w', w.streamRead owner i size = (some out, w') ∧ Leaves w w' i ∧
        out ++ contents (w'.inode i) = contents (w.inode i) := by
  have hsame : ∃ out w', (some [], w) = (some out, w') ∧ Leaves w w' i ∧
      out ++ contents (w'.inode i) = contents (w.inode i) :=
    ⟨[], w, rfl, ⟨rfl, fun _ _ => rfl⟩, rfl⟩
  rw [World.streamRead]
  dsimp only
  split
  · exact Or.inr hsame
  split
  · exact Or.inr hsame
  rename_i data hdata
  have hlen : data.length = (w.inode i).size := by simpa [Sized, hdata] using h
  have hcontents : contents (w.inode i) = data := by
    rw [World.contents, hdata]
    exact List.take_of_length_le (Nat.le_of_eq hlen)
  split
  · exact Or.inr hsame
  split
  · rename_i hall
    refine Or.inr ⟨_, _, rfl, ⟨?_, fun k hk => ?_⟩, ?_⟩
    · show ((w.setInode i _).inode i).type = _
      rw [setInode_inode, if_pos rfl]
    · show (w.setInode i _).inode k = _
      rw [setInode_inode, if_neg hk]
    · show _ ++ contents ((w.setInode i _).inode i) = _
      rw [setInode_inode, if_pos rfl, World.contents, List.append_nil, hcontents]
      exact List.take_of_length_le (by omega)
  · have hinode := valloc_inode w ((w.inode i).size - min size (w.inode i).size)
    split
    · rename_i w₁ heq
      rw [heq] at hinode
      exact Or.inl ⟨w₁, rfl, hinode⟩
    · rename_i w₁ heq
      rw [heq] at hinode
      refine Or.inr ⟨_, _, rfl, ⟨?_, fun k hk => ?_⟩, ?_⟩
      · show ((w₁.setInode i _).inode i).type = _
        rw [setInode_inode, if_pos rfl]
      · show (w₁.setInode i _).inode k = _
        rw [setInode_inode, if_neg hk]
        exact congrFun hinode k
      · show _ ++ contents ((w₁.setInode i _).inode i) = _
        rw [setInode_inode, if_pos rfl, World.contents, hcontents]
        dsimp only
        rw [List.take_take, Nat.min_self, List.take_of_length_le (l := data.drop _) (by
          rw [List.length_drop]
          omega), List.take_append_drop]

theorem stream_is_storage (h : isStreamNode (w.inode i).type = true) :
    (w.inode i).type ≠ .device ∧ isStorageNode (w.inode i).type = true := by
  rcases of_decide_eq_true h with ht | ht <;> rw [ht] <;> decide

theorem memfsWrite_stream (h : isStreamNode (w.inode i).type = true) {path : Path} {owner : Nat}
    (hl : w.lookupPathEx f path = some (owner, i)) (buf : List UInt8) :
    w.memfsWrite f path buf = w.streamWrite owner i buf := by
  obtain ⟨hdev, hstore⟩ := stream_is_storage h
  simp only [World.memfsWrite, hl, if_neg hdev, hstore, h, not_true, if_false, if_true]

theorem memfsAppend_stream (h : isStreamNode (w.inode i).type = true) {path : Path} {owner : Nat}
    (hl : w.lookupPathEx f path = some (owner, i)) (buf : List UInt8) :
    w.memfsAppend f path buf = w.streamWrite owner i buf := by
  obtain ⟨-, hstore⟩ := stream_is_storage h
  simp only [World.memfsAppend, hl, hstore, h, not_true, if_false, if_true]

theorem memfsRead_stream (h : isStreamNode (w.inode i).type = true) {path : Path} {owner : Nat}
    (hl : w.lookupPathEx f path = some (owner, i)) (size : Nat) :
    w.memfsRead f path size = w.streamRead owner i size := by
  obtain ⟨hdev, hstore⟩ := stream_is_storage h
  simp only [World.memfsRead, hl, if_neg hdev, hstore, h, not_true, if_false, if_true]

theorem extend_other (hij : i ≠ j) (owner : Nat) (buf : List UInt8) :
    (w.extend owner j buf).2.inode i = w.inode i := by
  have hinode := valloc_inode w ((w.inode j).size + buf.length)
  rw [World.extend]
  split
  · rename_i heq
    rw [heq] at hinode
    exact congrFun hinode i
  · rename_i w₁ heq
    rw [heq] at hinode
    show (w₁.setInode j _).inode i = _
    rw [setInode_inode, if_neg hij]
    exact congrFun hinode i

theorem streamWrite_other (hij : i ≠ j) (owner : Nat) (buf : List UInt8) :
    (w.streamWrite owner j buf).2.inode i = w.inode i := by
  rw [World.streamWrite]
  split
  · rfl
  · exact extend_other hij owner buf

theorem dropData_other (hij : i ≠ j) (owner : Nat) : (w.dropData owner j).inode i = w.inode i := by
  rw [World.dropData]
  split
  · rw [setInode_inode, if_neg hij]
    rfl
  · rfl

def Elsewhere (w : World) (f : Nat) (path : Path) (i : Nat) : Prop :=
  w.lookupPath f path ≠ some i

theorem Elsewhere.ne {path : Path} {owner : Nat} (h : Elsewhere w f path i)
    (hl : w.lookupPathEx f path = some (owner, j)) : i ≠ j := by
  rintro rfl
  exact h (by rw [World.lookupPath, hl]; rfl)

theorem memfsWrite_other {path : Path} (h : Elsewhere w f path i) (buf : List UInt8) :
    (w.memfsWrite f path buf).2.inode i = w.inode i := by
  rw [World.memfsWrite]
  split
  · rfl
  rename_i owner j hl
  have hij := h.ne hl
  dsimp only
  split
  · split
    · rfl
    split
    · rfl
    · rw [setInode_inode, if_neg hij]
  split
  · rfl
  split
  · exact streamWrite_other hij owner buf
  · have hinode := valloc_inode (w.dropData owner j) buf.length
    split
    · rename_i heq
      rw [heq] at hinode
      exact (congrFun hinode i).trans (dropData_other hij owner)
    · rename_i w₁ heq
      rw [heq] at hinode
      show (w₁.setInode j _).inode i = _
      rw [setInode_inode, if_neg hij]
      exact (congrFun hinode i).trans (dropData_other hij owner)

theorem memfsAppend_other {path : Path} (h : Elsewhere w f path i) (buf : List UInt8) :
    (w.memfsAppend f path buf).2.inode i = w.inode i := by
  rw [World.memfsAppend]
  split
  · rfl
  rename_i owner j hl
  split
  · rfl
  split
  · exact streamWrite_other (h.ne hl) owner buf
  · exact extend_other (h.ne hl) owner buf

theorem streamRead_other (hij : i ≠ j) (owner size : Nat) :
    (w.streamRead owner j size).2.inode i = w.inode i := by
  rw [World.streamRead]
  dsimp only
  split
  · rfl
  split
  · rfl
  split
  · rfl
  split
  · show (w.setInode j _).inode i = _
    rw [setInode_inode, if_neg hij]
  · have hinode := valloc_inode w ((w.inode j).size - min size (w.inode j).size)
    split
    · rename_i heq
      rw [heq] at hinode
      exact congrFun hinode i
    · rename_i w₁ heq
      rw [heq] at hinode
      show (w₁.setInode j _).inode i = _
      rw [setInode_inode, if_neg hij]
      exact congrFun hinode i

theorem memfsRead_other {path : Path} (h : Elsewhere w f path i) (size : Nat) :
    (w.memfsRead f path size).2.inode i = w.inode i := by
  rw [World.memfsRead]
  split
  · rfl
  rename_i owner j hl
  dsimp only
  split
  · split <;> rfl
  split
  · rfl
  split
  · exact streamRead_other (h.ne hl) owner size
  · rfl

structure StreamStep (w : World) (i : Nat) (c : Call) : Prop where
  type : ((answer w c).2.inode i).type = (w.inode i).type
  bytes : readBy i w c ++ contents ((answer w c).2.inode i) = contents (w.inode i) ++ sentBy i w c
  refused : (answer w c).1.failed → (answer w c).2.inode i = w.inode i

theorem stream_step_sent (h : Intact w) {c : Call} (owner : Nat) (buf : List UInt8)
    (hans : answer w c = ((.code (w.streamWrite owner i buf).1), (w.streamWrite owner i buf).2))
    (hread : readBy i w c = []) (hsent : sentBy i w c = if ¬(answer w c).1.failed then buf else []) :
    StreamStep w i c := by
  rcases streamWrite_cases (h.sized i) owner buf with ⟨w', heq, hsame⟩ | ⟨r, w', heq, hr, hleaves, hbytes⟩
  · have hfail : (answer w c).1.failed := by
      rw [hans, heq]
      show (-1 : Int) < 0
      decide
    refine ⟨?_, ?_, fun _ => ?_⟩
    · rw [hans, heq]
      exact congrArg Inode.type (congrFun hsame i)
    · rw [hread, hsent, if_neg (not_not_intro hfail), hans, heq, List.nil_append, List.append_nil]
      exact congrArg contents (congrFun hsame i)
    · rw [hans, heq]
      exact congrFun hsame i
  · have hok : ¬(answer w c).1.failed := by
      rw [hans, heq]
      exact Int.not_lt.mpr hr
    refine ⟨?_, ?_, fun hfail => absurd hfail hok⟩
    · rw [hans, heq]
      exact hleaves.type
    · rw [hread, hsent, if_pos hok, hans, heq, List.nil_append]
      exact hbytes

theorem stream_step (h : Intact w) (hi : isStreamNode (w.inode i).type = true) {c : Call}
    (hc : c.isData = true) : StreamStep w i c := by
  have helsewhere (hsame : (answer w c).2.inode i = w.inode i) (hr : readBy i w c = [])
      (hs : sentBy i w c = []) : StreamStep w i c := by
    refine ⟨by rw [hsame], ?_, fun _ => hsame⟩
    rw [hsame, hr, hs, List.append_nil, List.nil_append]
  cases c with
  | write f path buf =>
    by_cases hl : w.lookupPath f path = some i
    · obtain ⟨owner, hex⟩ := lookupPath_some hl
      refine stream_step_sent h owner buf ?_ rfl ?_
      · show (Answer.code (w.memfsWrite f path buf).1, (w.memfsWrite f path buf).2) = _
        rw [memfsWrite_stream hi hex]
      · simp only [sentBy, hl, true_and]
    · exact helsewhere (memfsWrite_other hl buf) rfl (if_neg fun hx => hl hx.1)
  | append f path buf =>
    by_cases hl : w.lookupPath f path = some i
    · obtain ⟨owner, hex⟩ := lookupPath_some hl
      refine stream_step_sent h owner buf ?_ rfl ?_
      · show (Answer.code (w.memfsAppend f path buf).1, (w.memfsAppend f path buf).2) = _
        rw [memfsAppend_stream hi hex]
      · simp only [sentBy, hl, true_and]
    · exact helsewhere (memfsAppend_other hl buf) rfl (if_neg fun hx => hl hx.1)
  | read f path size =>
    by_cases hl : w.lookupPath f path = some i
    · obtain ⟨owner, hex⟩ := lookupPath_some hl
      have hans : answer w (.read f path size) =
          (.bytes (w.streamRead owner i size).1, (w.streamRead owner i size).2) := by
        show (Answer.bytes (w.memfsRead f path size).1, (w.memfsRead f path size).2) = _
        rw [memfsRead_stream hi hex]
      have hread : readBy i w (.read f path size) = (w.streamRead owner i size).1.getD [] := by
        simp only [readBy, hl, if_true, memfsRead_stream hi hex]
      have hsent : sentBy i w (.read f path size) = [] := rfl
      rcases streamRead_cases (h.sized i) owner size with
        ⟨w', heq, hsame⟩ | ⟨out, w', heq, hleaves, hbytes⟩
      · refine ⟨?_, ?_, fun _ => ?_⟩
        · rw [hans, heq]
          exact congrArg Inode.type (congrFun hsame i)
        · rw [hread, hans, heq, hsent, List.append_nil]
          exact congrArg contents (congrFun hsame i)
        · rw [hans, heq]
          exact congrFun hsame i
      · refine ⟨?_, ?_, fun hfail => ?_⟩
        · rw [hans, heq]
          exact hleaves.type
        · rw [hread, hans, heq, hsent, List.append_nil]
          exact hbytes
        · rw [hans, heq] at hfail
          cases hfail
    · exact helsewhere (memfsRead_other hl size) (if_neg hl) rfl
  | _ => cases hc

theorem Intact.data (h : Intact w) {c : Call} (hc : c.isData = true) : Intact (answer w c).2 := by
  cases c with
  | write f path buf => exact h.write f path buf
  | append f path buf => exact h.append f path buf
  | read f path size => exact h.read f path size
  | _ => cases hc

theorem stream_run (cs : List Call) : ∀ {w : World}, Intact w → isStreamNode (w.inode i).type = true →
    (∀ c ∈ cs, c.isData = true) →
    (Intact (after w cs) ∧ isStreamNode ((after w cs).inode i).type = true) ∧
      received i w cs ++ contents ((after w cs).inode i) = contents (w.inode i) ++ sent i w cs := by
  induction cs with
  | nil => exact fun h hi _ => ⟨⟨h, hi⟩, (List.append_nil _).symm⟩
  | cons c cs ih =>
    intro w h hi hcs
    have hc := hcs c List.mem_cons_self
    obtain ⟨htype, hbytes, -⟩ := stream_step h hi hc
    obtain ⟨hrest, hrun⟩ := ih (h.data hc) (htype ▸ hi) fun c' hc' => hcs c' (List.mem_cons_of_mem c hc')
    refine ⟨hrest, ?_⟩
    show (readBy i w c ++ received i (answer w c).2 cs) ++ contents ((after (answer w c).2 cs).inode i) =
      contents (w.inode i) ++ (sentBy i w c ++ sent i (answer w c).2 cs)
    rw [List.append_assoc, hrun, ← List.append_assoc, hbytes, List.append_assoc]

theorem stream_conserves_bytes (w : World) (i : Nat) (cs : List Call) (h : Reachable w)
    (hi : isStreamNode (w.inode i).type = true) (hcs : ∀ c ∈ cs, c.isData = true) :
    received i w cs ++ contents ((after w cs).inode i) = contents (w.inode i) ++ sent i w cs ∧
      ∀ c, c.isData = true → (answer (after w cs) c).1.failed →
        (answer (after w cs) c).2.inode i = (after w cs).inode i := by
  obtain ⟨⟨hw, hs⟩, hbytes⟩ := stream_run cs h.intact hi hcs
  exact ⟨hbytes, fun c hc hfail => (stream_step hw hs hc).refused hfail⟩

-- the allocation after the one of the write fails: the first read is refused
def fifoWorld : World :=
  (answer (answer (untouched (fun n => decide (n ≠ 8)) []) (.createFs 0)).2 (.createFifo 0 [47, 112])).2

theorem fifoWorld_reachable : Reachable fifoWorld :=
  .call _ _ (.call _ _ (.start _ _) (by decide)) (by decide)

theorem stream_conserves_bytes_refused_read :
    received 1 fifoWorld [.write 0 [47, 112] [7, 8, 9], .read 0 [47, 112] 1, .read 0 [47, 112] 2] ++
      contents ((after fifoWorld [.write 0 [47, 112] [7, 8, 9], .read 0 [47, 112] 1,
        .read 0 [47, 112] 2]).inode 1) = contents (fifoWorld.inode 1) ++
      sent 1 fifoWorld [.write 0 [47, 112] [7, 8, 9], .read 0 [47, 112] 1, .read 0 [47, 112] 2] :=
  (stream_conserves_bytes fifoWorld 1 _ fifoWorld_reachable (by decide) (by decide)).1

end HouseOS.Memfs
