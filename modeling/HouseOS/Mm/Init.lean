import HouseOS.Mm.Clients

namespace HouseOS.Mm

open HouseOS.ByteMem
open HouseOS.DoublyLinked
open HouseOS.Word
open Heap

-- the 64-bit base that `kmalloc_init` picked, cut to a pointer, starts a region of the address space
def Region (mmap : List MapEntry) : Prop :=
  0 < heapBase mmap % 2 ^ 32 ∧ heapBase mmap % 2 ^ 32 + wantedSize < 2 ^ 32

instance (mmap : List MapEntry) : Decidable (Region mmap) := inferInstanceAs (Decidable (_ ∧ _))

def firstBlock (start : Nat) : Block := { addr := start, size := wantedSize - headerBytes, free := true }

section Init

variable {mmap : List MapEntry}

theorem kmallocInit_header (hr : Region mmap) (mem : Mem) :
    (kmallocInit mmap mem).header (heapBase mmap % 2 ^ 32) =
      { magic := heapMagic, size := wantedSize - headerBytes, isFree := 1, next := 0, prev := 0 } := by
  have hstop : (heapBase mmap + wantedSize) % 2 ^ 32 = heapBase mmap % 2 ^ 32 + wantedSize := by
    rw [Nat.add_mod, show wantedSize % 2 ^ 32 = wantedSize from rfl, Nat.mod_eq_of_lt hr.2]
  have hsize : sub32 (sub32 (heapBase mmap % 2 ^ 32 + wantedSize) (heapBase mmap % 2 ^ 32))
      headerBytes = wantedSize - headerBytes := by
    rw [sub32_eq hr.2 (Nat.le_add_right _ _), Nat.add_sub_cancel_left, sub32_eq (by decide) (by decide)]
  have hword : (wantedSize - headerBytes) % 2 ^ 32 = wantedSize - headerBytes := rfl
  rw [kmallocInit, hstop, hsize]
  refine (header_newBlock (Or.inl rfl)).trans ?_
  rw [if_pos rfl, hword]

theorem kmallocInit_spec (hr : Region mmap) (mem : Mem) :
    Rep (kmallocInit mmap mem) [firstBlock (heapBase mmap % 2 ^ 32)] := by
  have hhead := kmallocInit_header hr mem
  have hstop : (kmallocInit mmap mem).heapEnd = heapBase mmap % 2 ^ 32 + wantedSize := by
    show (heapBase mmap + wantedSize) % 2 ^ 32 = _
    rw [Nat.add_mod, show wantedSize % 2 ^ 32 = wantedSize from rfl, Nat.mod_eq_of_lt hr.2]
  have hstart : (kmallocInit mmap mem).heapStart = heapBase mmap % 2 ^ 32 := rfl
  have hfree : freeAddrs [firstBlock (heapBase mmap % 2 ^ 32)] = [heapBase mmap % 2 ^ 32] := rfl
  refine ⟨⟨hr.1, hstop ▸ hr.2, ?_, ⟨rfl, ?_⟩, ?_, ?_, ?_, ?_, ?_⟩, rfl⟩
  · rw [hstop, hstart]
    simp only [wantedSize, listFuel, headerBytes]
    omega
  · rw [hstop]
    have hroom : headerBytes + (wantedSize - headerBytes) = wantedSize :=
      Nat.add_sub_of_le (by decide)
    show heapBase mmap % 2 ^ 32 + headerBytes + (wantedSize - headerBytes) = _
    rw [Nat.add_assoc, hroom]
  · intro b hb
    obtain rfl := List.mem_singleton.mp hb
    exact ⟨congrArg Header.magic hhead, congrArg Header.size hhead, congrArg Header.isFree hhead⟩
  · rw [hfree]
    exact ⟨rfl, congrArg Header.prev hhead, congrArg Header.next hhead, trivial⟩
  · rw [hfree]
    exact List.pairwise_singleton _ _
  · rw [hfree]
    exact fun x hx => hx
  · intro b hb hloose
    obtain rfl := List.mem_singleton.mp hb
    exact absurd List.mem_cons_self hloose

theorem start_tenancy (hr : Region mmap) (mem : Mem) :
    Tenancy (World.start mmap mem).heap [firstBlock (heapBase mmap % 2 ^ 32)] []
      (World.start mmap mem).live where
  rep := kmallocInit_spec hr mem
  live := .refl _
  blocks := .refl _
  holds := by simp

end Init

def Housed (w : World) : Prop := ∃ bs own, Tenancy w.heap bs own w.live

def Allowed (w : World) (c : Call) : Prop := c.Legal w.heap w.live ∧ c.Sound

section Run

variable {mmap : List MapEntry} {w w' : World} {c : Call}

theorem step_housed (hw : Housed w) (hc : Allowed w c) : ∃ w', w.step c = some w' ∧ Housed w' := by
  obtain ⟨bs, own, T⟩ := hw
  obtain ⟨p, h', bs', own', hcall, o⟩ := call_outcome T hc.1 hc.2
  refine ⟨⟨h', c.after p w.live⟩, ?_, bs', own', o.tenancy⟩
  rw [World.step, hcall]
  rfl

theorem run_housed (hr : Region mmap) (mem : Mem) (cs : List Call)
    (hok : Run.Along World.step Allowed (World.start mmap mem) cs) :
    ∃ w, Run.run World.step (World.start mmap mem) cs = some w ∧ Housed w :=
  Run.run_total (fun _ _ hw hc => step_housed hw hc) cs _ ⟨_, _, start_tenancy hr mem⟩ hok

end Run

section First

variable {mmap : List MapEntry} {b c : Block} {bs' : List Block} {n size : Nat}

theorem takes_single (ht : Takes n [b] c bs') (hroom : headerBytes + minBlockSize + n ≤ b.size) :
    c = (carved b n).taken ∧ bs' = [c, remainder b n] := by
  generalize hbs : [b] = bs at ht
  cases ht with
  | @intro l r gap b' _ hfree hs =>
    obtain ⟨rfl, rfl, rfl⟩ : l = [] ∧ b' = b ∧ r = [] := by
      cases l with
      | nil => simpa [eq_comm] using hbs
      | cons x l => simp at hbs
    cases hs with
    | whole _ hsmall => omega
    | carve _ => exact ⟨rfl, rfl⟩

def firstPayload (mmap : List MapEntry) : Nat := heapBase mmap % 2 ^ 32 + headerBytes

theorem first_kmalloc (hr : Region mmap) (mem : Mem) (hsize : size ≠ 0)
    (hfit : headerBytes + minBlockSize + alignSize size ≤ wantedSize - headerBytes) :
    ∃ h' c, (Call.kmalloc size).exec (World.start mmap mem).heap = some (firstPayload mmap, h') ∧
      c = (carved (firstBlock (heapBase mmap % 2 ^ 32)) (alignSize size)).taken ∧
      Rep h' [c, remainder (firstBlock (heapBase mmap % 2 ^ 32)) (alignSize size)] := by
  obtain ⟨p, h', hcall, hcase⟩ := kmalloc_spec (kmallocInit_spec hr mem) size
  rcases hcase with ⟨_, _, hnone⟩ | ⟨bs', c, rfl, ht, R', _⟩
  · have hsmall := (hnone.resolve_left hsize) _ List.mem_cons_self rfl
    have hword : (firstBlock (heapBase mmap % 2 ^ 32)).size = wantedSize - headerBytes := rfl
    omega
  · obtain ⟨rfl, rfl⟩ := takes_single ht hfit
    exact ⟨h', _, hcall, rfl, R'⟩

theorem first_step (hr : Region mmap) (mem : Mem) (hsize : size ≠ 0)
    (hfit : headerBytes + minBlockSize + alignSize size ≤ wantedSize - headerBytes) :
    ∃ h' c, (World.start mmap mem).step (.kmalloc size) = some ⟨h', [.plain (firstPayload mmap)]⟩ ∧
      c = (carved (firstBlock (heapBase mmap % 2 ^ 32)) (alignSize size)).taken ∧
      Rep h' [c, remainder (firstBlock (heapBase mmap % 2 ^ 32)) (alignSize size)] := by
  obtain ⟨h', c, hcall, hc, R'⟩ := first_kmalloc hr mem hsize hfit
  refine ⟨h', c, ?_, hc, R'⟩
  have hp : firstPayload mmap ≠ 0 := by
    have hpos := hr.1
    simp only [firstPayload, headerBytes]
    omega
  have hafter : Call.after (.kmalloc size) (firstPayload mmap) [] = [.plain (firstPayload mmap)] :=
    if_neg hp
  rw [World.step, hcall, Option.map_some, ← hafter]
  rfl

end First

end HouseOS.Mm
