import HouseOS.Initramfs.Clean
import HouseOS.Library.ByteCopy
import HouseOS.Memfs.Model

namespace HouseOS.Initramfs

open HouseOS.ByteMem
open HouseOS.CanonicalPath
open HouseOS.Memfs (World zeroInode)
open HouseOS.Vfs (Path slash)

def peek (m : Mem) (a n : Nat) : List UInt8 := (List.range n).map fun k => m ((a + k) % 2 ^ 32)

def hexStep (result : Nat) (c : UInt8) : Nat :=
  let result := result * 16 % 2 ^ 32
  if 48 ≤ c ∧ c ≤ 57 then result ||| (c.toNat - 48)
  else if 97 ≤ c ∧ c ≤ 102 then result ||| (c.toNat - 97 + 10)
  else if 65 ≤ c ∧ c ≤ 70 then result ||| (c.toNat - 65 + 10)
  else result

def hexStrToUint32 (hex : List UInt8) : Nat := hex.foldl hexStep 0

-- "070701" and "070702"
def magics : List (List UInt8) := [[48, 55, 48, 55, 48, 49], [48, 55, 48, 55, 48, 50]]

def cpioMagicOk (m : Mem) (a : Nat) : Bool := decide (a ≠ 0) && decide (peek m a 6 ∈ magics)

def bootcfgAddr : Nat := 0x600

def bootcfgMagic : Nat := 0x47464348

def initramfsAddr : Nat := 0x80000

def candidates : List Nat :=
  [initramfsAddr, 0x82000, 0x50000, 0x60000, 0x70000, 0x40000, 0x80000]

def initramfsGetArchiveAddr (m : Mem) : Nat :=
  let fromCfg := load32 m (bootcfgAddr + 28)
  if load32 m bootcfgAddr = bootcfgMagic ∧ fromCfg ≠ 0 ∧ cpioMagicOk m fromCfg then fromCfg
  else (candidates.find? (cpioMagicOk m)).getD initramfsAddr

def fileTypeMask : Nat := 0o170000

def typeDir : Nat := 0o040000

def typeFifo : Nat := 0o010000

def typeSock : Nat := 0o140000

def typeReg : Nat := 0o100000

def typeLnk : Nat := 0o120000

-- "TRAILER!!!"
def trailerName : Path := [84, 82, 65, 73, 76, 69, 82, 33, 33, 33]

def readName (m : Mem) (a namesize : Nat) : Path :=
  (peek m (a + 110) (min namesize 255)).takeWhile (· ≠ 0)

-- `abs` is what the stack holds in `abs_path` before the name is put there
def absPath (abs : Buffer) (name : Path) : Option Path :=
  (cleanPath pathSize (makeAbsolutePath abs name pathSize)).map fun path => cstrAt path 0 pathSize

-- what an entry does to the filesystem, and how much it adds to `imported`
def importNode (w : World) (f mode : Nat) (path : Path) (data : List UInt8) : World × Nat :=
  if mode &&& fileTypeMask = typeDir then ((w.memfsCreateDir f path).2, 1)
  else if mode &&& fileTypeMask = typeFifo then ((w.memfsCreateFifo f path).2, 1)
  else if mode &&& fileTypeMask = typeSock then ((w.memfsCreateSocket f path).2, 1)
  else if mode &&& fileTypeMask = typeReg then
    let w := (w.memfsCreateFile f path).2
    (if 0 < data.length then (w.memfsWrite f path data).2 else w, 1)
  else if mode &&& fileTypeMask = typeLnk then
    if data.length < 255 then
      let w := (w.memfsCreateFile f path).2
      ((w.memfsWrite f path (data.takeWhile (· ≠ 0))).2, 1)
    else (w, 0)
  else (w, 0)

-- "/", "/." and "/.."
def skipped (path : Path) : Bool := decide (path ∈ [[slash], [slash, dot], [slash, dot, dot]])

def padding (n : Nat) : Nat := (4 - n % 4) % 4

def importLoop (m : Mem) (abs : Nat → Buffer) (f : Nat) :
    Nat → World → Nat → Nat → Option (World × Nat)
  | 0, _, _, _ => none
  | fuel + 1, w, current, imported =>
      if peek m current 6 ∉ magics then some (w, imported)
      else
        let filesize := hexStrToUint32 (peek m (current + 54) 8)
        let mode := hexStrToUint32 (peek m (current + 14) 8)
        let namesize := hexStrToUint32 (peek m (current + 94) 8)
        if namesize = 0 ∨ 4096 < namesize then some (w, imported)
        else
          let name := readName m current namesize
          if name = trailerName then some (w, imported)
          else
            let filedata := (current + 110 + namesize + padding (110 + namesize)) % 2 ^ 32
            let next := (filedata + filesize + padding filesize) % 2 ^ 32
            match absPath (abs current) name with
            | none => none
            | some path =>
                if skipped path then importLoop m abs f fuel w next imported
                else
                  let (w, n) := importNode w f mode path (peek m filedata filesize)
                  importLoop m abs f fuel w next ((imported + n) % 2 ^ 32)

def initramfsInit (m : Mem) (abs : Nat → Buffer) (f fuel : Nat) (w : World) : Option (World × Nat) :=
  importLoop m abs f fuel w (initramfsGetArchiveAddr m) 0

section Format

def digit (upper : Bool) (d : Nat) : UInt8 :=
  UInt8.ofNat (if d < 10 then 48 + d else if upper then 55 + d else 87 + d)

def hexField (upper : Bool) : Nat → Nat → List UInt8
  | 0, _ => []
  | k + 1, n => hexField upper k (n / 16) ++ [digit upper (n % 16)]

-- the fields of the header that the loader never reads
structure Stat where
  ino : Nat
  uid : Nat
  gid : Nat
  nlink : Nat
  mtime : Nat
  devmajor : Nat
  devminor : Nat
  rdevmajor : Nat
  rdevminor : Nat
  check : Nat

structure Entry where
  crc : Bool
  upper : Bool
  stat : Stat
  mode : Nat
  name : Path
  data : List UInt8
  modeFits : mode < 2 ^ 32
  nameFits : name.length < 255
  nameEnds : 0 ∉ name
  dataFits : data.length < 2 ^ 32

namespace Entry

variable (e : Entry)

def magic : List UInt8 := if e.crc then [48, 55, 48, 55, 48, 50] else [48, 55, 48, 55, 48, 49]

def field (n : Nat) : List UInt8 := hexField e.upper 8 n

def owner : List UInt8 :=
  e.field e.stat.uid ++ e.field e.stat.gid ++ e.field e.stat.nlink ++ e.field e.stat.mtime

def device : List UInt8 :=
  e.field e.stat.devmajor ++ e.field e.stat.devminor ++ e.field e.stat.rdevmajor ++
    e.field e.stat.rdevminor

def zeros (n : Nat) : List UInt8 := List.replicate n 0

def bytes : List UInt8 :=
  e.magic ++ (e.field e.stat.ino ++ (e.field e.mode ++ (e.owner ++ (e.field e.data.length ++
    (e.device ++ (e.field (e.name.length + 1) ++ (e.field e.stat.check ++
      ((e.name ++ [0]) ++ (zeros (padding (110 + (e.name.length + 1))) ++
        (e.data ++ zeros (padding e.data.length)))))))))))

def path : Path := absolute slash (kept e.name)

end Entry

def archive (es : List Entry) : List UInt8 := es.flatMap Entry.bytes

def importEntry (f : Nat) (s : World × Nat) (e : Entry) : World × Nat :=
  if skipped e.path then s
  else
    let (w, n) := importNode s.1 f e.mode e.path e.data
    (w, (s.2 + n) % 2 ^ 32)

end Format

section Fields

theorem hexStep_digit {v d : Nat} (upper : Bool) (hv : v * 16 < 2 ^ 32) (hd : d < 16) :
    hexStep v (digit upper d) = v * 16 + d := by
  have hor : v * 16 ||| d = v * 16 + d := by
    rw [Nat.mul_comm]
    exact (Nat.two_pow_add_eq_or_of_lt (i := 4) hd v).symm
  have hletter (base : Nat) (h : base = 55 ∨ base = 87) (hten : 10 ≤ d) :
      hexStep v (UInt8.ofNat (base + d)) = v * 16 + d := by
    have hnat : (UInt8.ofNat (base + d)).toNat = base + d := by
      rw [UInt8.toNat_ofNat']
      omega
    simp only [hexStep, UInt8.le_iff_toNat_le, hnat, Nat.mod_eq_of_lt hv]
    rcases h with rfl | rfl
    · rw [if_neg (by simp; omega), if_neg (by simp; omega), if_pos (by simp; omega),
        show 55 + d - 65 + 10 = d by omega, hor]
    · rw [if_neg (by simp; omega), if_pos (by simp; omega),
        show 87 + d - 97 + 10 = d by omega, hor]
  rw [digit]
  split
  next hten =>
    have hnat : (UInt8.ofNat (48 + d)).toNat = 48 + d := by
      rw [UInt8.toNat_ofNat']
      omega
    simp only [hexStep, UInt8.le_iff_toNat_le, hnat, Nat.mod_eq_of_lt hv]
    rw [if_pos (by simp; omega), show 48 + d - 48 = d by omega, hor]
  next hten =>
    split
    · exact hletter 55 (Or.inl rfl) (by omega)
    · exact hletter 87 (Or.inr rfl) (by omega)

theorem length_hexField (upper : Bool) (k n : Nat) : (hexField upper k n).length = k := by
  induction k generalizing n with
  | zero => rfl
  | succ k ih =>
    rw [hexField, List.length_append, ih]
    rfl

theorem hexField_value (upper : Bool) {k n : Nat} (hk : k ≤ 8) (hn : n < 16 ^ k) :
    hexStrToUint32 (hexField upper k n) = n := by
  induction k generalizing n with
  | zero =>
    obtain rfl : n = 0 := Nat.lt_one_iff.mp hn
    rfl
  | succ k ih =>
    have hdiv : n / 16 < 16 ^ k := Nat.div_lt_of_lt_mul (by rwa [Nat.mul_comm, ← Nat.pow_succ])
    have hsmall : n / 16 * 16 < 2 ^ 32 := by
      have hle : 16 ^ (k + 1) ≤ 16 ^ 8 := Nat.pow_le_pow_right (by decide) hk
      have heq : (16 : Nat) ^ 8 = 2 ^ 32 := by decide
      omega
    have hrest : (hexField upper k (n / 16)).foldl hexStep 0 = n / 16 := ih (by omega) hdiv
    rw [hexStrToUint32, hexField, List.foldl_append, hrest, List.foldl_cons, List.foldl_nil,
      hexStep_digit upper hsmall (Nat.mod_lt n (by decide))]
    omega

end Fields

section Reading

variable {m : Mem} {a : Nat} {e : Entry} {bytes : List UInt8}

theorem peek_eq (h : BytesAt m a bytes) (hroom : a + bytes.length ≤ 2 ^ 32) :
    peek m a bytes.length = bytes := by
  refine Eq.trans (List.map_congr_left fun k hk => ?_) (range_map_of_bytesAt h)
  have hlt := List.mem_range.mp hk
  rw [Nat.mod_eq_of_lt (by omega)]

structure Parts (m : Mem) (a : Nat) (e : Entry) : Prop where
  magic : BytesAt m a e.magic
  mode : BytesAt m (a + 14) (e.field e.mode)
  filesize : BytesAt m (a + 54) (e.field e.data.length)
  namesize : BytesAt m (a + 94) (e.field (e.name.length + 1))
  name : BytesAt m (a + 110) (e.name ++ [0])
  data : BytesAt m (a + 110 + (e.name.length + 1) + padding (110 + (e.name.length + 1))) e.data

theorem length_magic (e : Entry) : e.magic.length = 6 := by
  rw [Entry.magic]
  split <;> rfl

theorem length_field (e : Entry) (n : Nat) : (e.field n).length = 8 := length_hexField e.upper 8 n

theorem length_owner (e : Entry) : e.owner.length = 32 := by
  simp only [Entry.owner, List.length_append, length_field]

theorem length_device (e : Entry) : e.device.length = 32 := by
  simp only [Entry.device, List.length_append, length_field]

theorem length_bytes (e : Entry) : e.bytes.length =
    110 + (e.name.length + 1) + padding (110 + (e.name.length + 1)) +
      (e.data.length + padding e.data.length) := by
  simp only [Entry.bytes, List.length_append, length_magic, length_field, length_owner,
    length_device, Entry.zeros, List.length_replicate, List.length_singleton]
  omega

theorem parts_of_bytesAt (h : BytesAt m a e.bytes) : Parts m a e := by
  rw [Entry.bytes] at h
  obtain ⟨hmagic, h⟩ := bytesAt_append.mp h
  obtain ⟨-, h⟩ := bytesAt_append.mp h
  obtain ⟨hmode, h⟩ := bytesAt_append.mp h
  obtain ⟨-, h⟩ := bytesAt_append.mp h
  obtain ⟨hfilesize, h⟩ := bytesAt_append.mp h
  obtain ⟨-, h⟩ := bytesAt_append.mp h
  obtain ⟨hnamesize, h⟩ := bytesAt_append.mp h
  obtain ⟨-, h⟩ := bytesAt_append.mp h
  obtain ⟨hname, h⟩ := bytesAt_append.mp h
  obtain ⟨-, h⟩ := bytesAt_append.mp h
  obtain ⟨hdata, -⟩ := bytesAt_append.mp h
  simp only [length_magic, length_field, length_owner, length_device, List.length_append,
    List.length_singleton, Entry.zeros, List.length_replicate, Nat.add_assoc, Nat.reduceAdd] at *
  refine ⟨hmagic, hmode, hfilesize, hnamesize, hname, ?_⟩
  simpa only [Nat.add_assoc] using hdata

theorem magic_mem (e : Entry) : e.magic ∈ magics := by
  rw [Entry.magic]
  split <;> decide

theorem field_value (e : Entry) {n : Nat} (hn : n < 2 ^ 32) : hexStrToUint32 (e.field n) = n :=
  hexField_value e.upper (Nat.le_refl 8) (by
    have heq : (16 : Nat) ^ 8 = 2 ^ 32 := by decide
    omega)

theorem readName_eq (h : Parts m a e) (hroom : a + e.bytes.length ≤ 2 ^ 32) :
    readName m a (e.name.length + 1) = e.name := by
  have hfits := e.nameFits
  have hlen := length_bytes e
  have hpeek : peek m (a + 110) (e.name.length + 1) = e.name ++ [0] := by
    have hends : (e.name ++ [0]).length = e.name.length + 1 := List.length_append
    rw [← hends]
    exact peek_eq h.name (by omega)
  rw [readName, Nat.min_eq_left (by omega), hpeek, List.takeWhile_append_of_pos, List.takeWhile_cons_of_neg,
    List.append_nil]
  · simp
  · intro c hc
    simpa using fun hzero : c = 0 => e.nameEnds (hzero ▸ hc)

theorem length_absolute_kept (e : Entry) : e.path.length < pathSize := by
  obtain ⟨p, hholds, hkept, hfit⟩ := makeAbsolutePath_holds (fun _ => 0) e.nameEnds e.nameFits
  obtain ⟨-, -, -, hshort⟩ := hholds.cleaned hfit
  rw [Entry.path, ← hkept]
  exact Nat.lt_of_le_of_lt hshort hfit

theorem absPath_eq (abs : Buffer) (e : Entry) : absPath abs e.name = some e.path := by
  obtain ⟨p, hholds, hkept, hfit⟩ := makeAbsolutePath_holds abs e.nameEnds e.nameFits
  obtain ⟨path, hclean, htext, hshort⟩ := hholds.cleaned hfit
  rw [absPath, hclean, Option.map_some, Entry.path, ← hkept]
  refine congrArg some (cstrAt_eq ?_ htext.ends ?_ (Nat.lt_of_le_of_lt hshort hfit))
  · intro k c hc
    have hk := (List.getElem?_eq_some_iff.mp hc).1
    rw [Nat.zero_add, htext.text k (Nat.le_of_lt hk), List.getD_eq_getElem?_getD, hc]
    rfl
  · rw [Nat.zero_add, htext.text _ (Nat.le_refl _), List.getD_eq_default _ _ (Nat.le_refl _)]

variable {abs : Nat → Buffer} {f fuel : Nat} {w : World} {imported : Nat}

theorem importLoop_entry (h : BytesAt m a e.bytes) (hroom : a + e.bytes.length < 2 ^ 32)
    (hname : e.name ≠ trailerName) :
    importLoop m abs f (fuel + 1) w a imported =
      importLoop m abs f fuel (importEntry f (w, imported) e).1 (a + e.bytes.length)
        (importEntry f (w, imported) e).2 := by
  have parts := parts_of_bytesAt h
  have hlen := length_bytes e
  have hfits := e.nameFits
  have hmagic : peek m a 6 = e.magic := by
    rw [← length_magic e]
    exact peek_eq parts.magic (by rw [length_magic]; omega)
  have hfield {k n : Nat} (hat : BytesAt m (a + k) (e.field n)) (hk : k ≤ 102) (hn : n < 2 ^ 32) :
      hexStrToUint32 (peek m (a + k) 8) = n := by
    rw [← length_field e n, peek_eq hat (by rw [length_field]; omega), field_value e hn]
  have hmode := hfield parts.mode (by decide) e.modeFits
  have hfilesize := hfield parts.filesize (by decide) e.dataFits
  have hnamesize := hfield parts.namesize (by decide) (by omega)
  have hfiledata : (a + 110 + (e.name.length + 1) + padding (110 + (e.name.length + 1))) % 2 ^ 32 =
      a + 110 + (e.name.length + 1) + padding (110 + (e.name.length + 1)) :=
    Nat.mod_eq_of_lt (by omega)
  have hdata : peek m (a + 110 + (e.name.length + 1) + padding (110 + (e.name.length + 1)))
      e.data.length = e.data := peek_eq parts.data (by omega)
  have hnext : (a + 110 + (e.name.length + 1) + padding (110 + (e.name.length + 1)) +
      e.data.length + padding e.data.length) % 2 ^ 32 = a + e.bytes.length := by
    rw [Nat.mod_eq_of_lt (by omega)]
    omega
  rw [importLoop, hmagic, if_neg (not_not.mpr (magic_mem e))]
  dsimp only
  rw [hfilesize, hmode, hnamesize, if_neg (by omega), readName_eq parts (Nat.le_of_lt hroom),
    if_neg hname, absPath_eq, hfiledata, hnext, hdata, importEntry]
  dsimp only
  split <;> rfl

theorem importLoop_trailer (h : BytesAt m a e.bytes) (hroom : a + e.bytes.length ≤ 2 ^ 32)
    (hname : e.name = trailerName) :
    importLoop m abs f (fuel + 1) w a imported = some (w, imported) := by
  have parts := parts_of_bytesAt h
  have hlen := length_bytes e
  have hfits := e.nameFits
  have hmagic : peek m a 6 = e.magic := by
    rw [← length_magic e]
    exact peek_eq parts.magic (by rw [length_magic]; omega)
  have hnamesize : hexStrToUint32 (peek m (a + 94) 8) = e.name.length + 1 := by
    rw [← length_field e (e.name.length + 1), peek_eq parts.namesize (by rw [length_field]; omega),
      field_value e (by omega)]
  rw [importLoop, hmagic, if_neg (not_not.mpr (magic_mem e))]
  dsimp only
  rw [hnamesize, if_neg (by omega), readName_eq parts hroom, if_pos hname]

theorem length_bytes_pos (e : Entry) : 0 < e.bytes.length := by
  rw [length_bytes]
  omega

theorem importLoop_archive (es : List Entry) {trailer : Entry} (htrailer : trailer.name = trailerName)
    (hnames : ∀ e ∈ es, e.name ≠ trailerName) (h : BytesAt m a (archive (es ++ [trailer])))
    (hroom : a + (archive (es ++ [trailer])).length ≤ 2 ^ 32) (hfuel : es.length < fuel) :
    importLoop m abs f fuel w a imported = some (es.foldl (importEntry f) (w, imported)) := by
  induction es generalizing a fuel w imported with
  | nil =>
    obtain ⟨fuel, rfl⟩ : ∃ n, fuel = n + 1 := ⟨fuel - 1, by omega⟩
    have hbytes : archive ([] ++ [trailer]) = trailer.bytes := List.append_nil _
    rw [hbytes] at h hroom
    exact importLoop_trailer h hroom htrailer
  | cons e es ih =>
    obtain ⟨fuel, rfl⟩ : ∃ n, fuel = n + 1 := ⟨fuel - 1, by omega⟩
    have hsplit : archive (e :: es ++ [trailer]) = e.bytes ++ archive (es ++ [trailer]) := rfl
    have hrest : 0 < (archive (es ++ [trailer])).length := by
      rw [archive, List.flatMap_append, List.length_append]
      have hlast : ([trailer].flatMap Entry.bytes).length = trailer.bytes.length :=
        congrArg List.length (List.append_nil _)
      have hpos := length_bytes_pos trailer
      omega
    rw [hsplit] at h hroom
    rw [List.length_append] at hroom
    obtain ⟨hhere, hlater⟩ := bytesAt_append.mp h
    rw [importLoop_entry hhere (by omega) (hnames e List.mem_cons_self), List.foldl_cons]
    exact ih (fun d hd => hnames d (List.mem_cons_of_mem e hd)) hlater (by omega)
      (Nat.lt_of_succ_lt_succ hfuel)

end Reading

theorem archive_is_imported (m : Mem) (abs : Nat → Buffer) (f : Nat) (w : World) (es : List Entry)
    (trailer : Entry) (htrailer : trailer.name = trailerName)
    (hnames : ∀ e ∈ es, e.name ≠ trailerName)
    (hat : BytesAt m (initramfsGetArchiveAddr m) (archive (es ++ [trailer])))
    (hroom : initramfsGetArchiveAddr m + (archive (es ++ [trailer])).length ≤ 2 ^ 32) (fuel : Nat)
    (hfuel : es.length < fuel) :
    initramfsInit m abs f fuel w = some (es.foldl (importEntry f) (w, 0)) :=
  importLoop_archive es htrailer hnames hat hroom hfuel

def noStat : Stat := ⟨0, 0, 0, 0, 0, 0, 0, 0, 0, 0⟩

def binDir : Entry :=
  ⟨false, true, noStat, 0o040755, [98, 105, 110], [], by decide, by decide, by decide, by decide⟩

def binA : Entry :=
  ⟨true, false, noStat, 0o100644, [46, 47, 98, 105, 110, 47, 97], [104, 105], by decide, by decide,
    by decide, by decide⟩

def trailing : Entry :=
  ⟨false, true, noStat, 0, trailerName, [], by decide, by decide, by decide, by decide⟩

def archiveMemory : Mem := fun x =>
  if initramfsAddr ≤ x then (archive ([binDir, binA] ++ [trailing])).getD (x - initramfsAddr) 0 else 0

theorem archiveMemory_addr : initramfsGetArchiveAddr archiveMemory = initramfsAddr := by decide

theorem archiveMemory_bytes :
    BytesAt archiveMemory initramfsAddr (archive ([binDir, binA] ++ [trailing])) := by
  intro k c hc
  rw [archiveMemory, if_pos (Nat.le_add_right _ _), Nat.add_sub_cancel_left,
    List.getD_eq_getElem?_getD, hc]
  rfl

theorem archiveMemory_room :
    initramfsAddr + (archive ([binDir, binA] ++ [trailing])).length ≤ 2 ^ 32 := by
  simp only [archive, List.length_flatMap, List.cons_append, List.nil_append, List.map_cons, List.map_nil,
    length_bytes]
  decide

def bareWorld : World :=
  { inode := fun _ => zeroInode, live := fun _ => false, memfs := fun _ => ⟨0, 0, 0, 0⟩, nextInode := 0,
    nextFs := 0, grant := fun _ => true, allocs := 0, atNull := [] }

theorem archive_is_imported_bin :
    initramfsInit archiveMemory (fun _ _ => 170) 0 3 bareWorld =
      some ([binDir, binA].foldl (importEntry 0) (bareWorld, 0)) :=
  archive_is_imported archiveMemory (fun _ _ => 170) 0 bareWorld [binDir, binA] trailing rfl (by decide)
    (archiveMemory_addr ▸ archiveMemory_bytes) (archiveMemory_addr ▸ archiveMemory_room) 3 (by decide)

end HouseOS.Initramfs
