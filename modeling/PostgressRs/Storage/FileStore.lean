import PostgressRs.Storage.PageStore

/-!
The file-backed store (`src/storage/mmap.rs`).  The only call on a file that
fails is a read that goes on behind its end.
-/

namespace PostgressRs.Storage.FileStore

open PostgressRs.Lib.ByteBuffer
open PostgressRs.Storage.PageStore
open PostgressRs.Types

/-- A file and the bytes in it; behind its end there are none but zeros. -/
structure File where
  len : Nat
  byteAt : Nat → UInt8
  beyond : ∀ i, len ≤ i → byteAt i = 0

namespace File

/-- A new file after `set_len`. -/
def zeros (len : Nat) : File where
  len := len
  byteAt _ := 0
  beyond _ _ := rfl

def window (file : File) (offset count : Nat) : Bytes :=
  (List.range count).map fun i => file.byteAt (offset + i)

/-- `seek` and `read_exact`. -/
def readExact (file : File) (offset count : Nat) : Except String Bytes :=
  if count = 0 ∨ offset + count ≤ file.len then .ok (file.window offset count)
  else .error "failed to fill whole buffer"

def overwrite (file : File) (offset : Nat) (data : Bytes) (i : Nat) : UInt8 :=
  if offset ≤ i then data[i - offset]?.getD (file.byteAt i) else file.byteAt i

theorem overwrite_beyond (file : File) (offset : Nat) (data : Bytes) (i : Nat)
    (h : max file.len (offset + data.length) ≤ i) : file.overwrite offset data i = 0 := by
  have hlen : data.length ≤ i - offset := by omega
  rw [overwrite, List.getElem?_eq_none hlen, Option.getD_none, ite_self]
  exact file.beyond i (by omega)

/-- `seek` and `write_all`. -/
def writeAll (file : File) (offset : Nat) (data : Bytes) : File :=
  if data = [] then file
  else
    { len := max file.len (offset + data.length)
      byteAt := file.overwrite offset data
      beyond := file.overwrite_beyond offset data }

theorem window_zeros (len offset count : Nat) :
    (zeros len).window offset count = List.replicate count 0 := by
  rw [List.eq_replicate_iff]
  simp [window, zeros]

variable (file : File) (offset : Nat) (data : Bytes)

theorem byteAt_writeAll (i : Nat) :
    (file.writeAll offset data).byteAt i = file.overwrite offset data i := by
  unfold writeAll
  split
  · rename_i hnil
    subst hnil
    rw [overwrite, List.getElem?_nil, Option.getD_none, ite_self]
  · rfl

theorem le_len_writeAll : file.len ≤ (file.writeAll offset data).len := by
  unfold writeAll
  split
  · exact Nat.le_refl _
  · exact Nat.le_max_left _ _

theorem end_le_len_writeAll (h : data ≠ []) :
    offset + data.length ≤ (file.writeAll offset data).len := by
  rw [writeAll, if_neg h]
  exact Nat.le_max_right _ _

/-- What was written is read back. -/
theorem window_writeAll_self :
    (file.writeAll offset data).window offset data.length = data := by
  apply List.ext_getElem
  · simp [window]
  · intro i hi hi'
    simp [window, byteAt_writeAll, overwrite, hi']

/-- A window apart from what was written is as before. -/
theorem window_writeAll_of_disjoint {start count : Nat}
    (h : start + count ≤ offset ∨ offset + data.length ≤ start) :
    (file.writeAll offset data).window start count = file.window start count := by
  apply List.map_congr_left
  intro i hi
  have hlt := List.mem_range.mp hi
  rw [byteAt_writeAll, overwrite]
  split
  · rw [List.getElem?_eq_none (by omega), Option.getD_none]
  · rfl

end File

/-- Page sizes for which the offset of a page is a `usize`. -/
structure MmapStorage where
  file : File
  pageSize : Nat
  inRange : pageSize ≤ 2 ^ 32

namespace MmapStorage

/-- `MmapStorage::open`: the file is truncated and made one GiB long. -/
def openFile (pageSize : Nat) (inRange : pageSize ≤ 2 ^ 32) : MmapStorage where
  file := File.zeros (1024 * 1024 * 1024)
  pageSize := pageSize
  inRange := inRange

def offset (self : MmapStorage) (page : PageId) : Nat := page.val.toNat * self.pageSize

instance : StorageTrait MmapStorage where
  readPage store page := store.file.readExact (store.offset page) store.pageSize
  writePage store page data :=
    if store.pageSize < data.length then (.error "data too large for page", store)
    else (.ok (), { store with file := store.file.writeAll (store.offset page) data })

end MmapStorage

section Pages

variable {store : MmapStorage} {page : PageId} {data : Bytes}

/-- The file goes on to the end of the page. -/
def InFile (store : MmapStorage) (page : PageId) : Prop :=
  store.offset page + store.pageSize ≤ store.file.len

def pageBytes (store : MmapStorage) (page : PageId) : Bytes :=
  store.file.window (store.offset page) store.pageSize

theorem readPage_inFile (h : InFile store page) :
    readPage store page = .ok (pageBytes store page) :=
  if_pos (Or.inr h)

/-- The store after a page was written. -/
def written (store : MmapStorage) (page : PageId) (data : Bytes) : MmapStorage :=
  { store with file := store.file.writeAll (store.offset page) data }

theorem writePage_short (h : data.length ≤ store.pageSize) :
    writePage store page data = (.ok (), written store page data) :=
  if_neg (Nat.not_lt.mpr h)

theorem InFile.written (h : InFile store page) (other : PageId) (data : Bytes) :
    InFile (written store other data) page :=
  Nat.le_trans h (File.le_len_writeAll _ _ _)

theorem inFile_written (hlen : data.length = store.pageSize) (hne : data ≠ []) :
    InFile (written store page data) page := by
  have hend := File.end_le_len_writeAll store.file (store.offset page) data hne
  rwa [hlen] at hend

theorem pageBytes_written_self (hlen : data.length = store.pageSize) :
    pageBytes (written store page data) page = data := by
  have hwindow := File.window_writeAll_self store.file (store.offset page) data
  rwa [hlen] at hwindow

theorem offset_le {other : PageId} (h : other.val.toNat < page.val.toNat) :
    store.offset other + store.pageSize ≤ store.offset page := by
  rw [MmapStorage.offset, MmapStorage.offset, ← Nat.succ_mul]
  exact Nat.mul_le_mul_right _ h

/-- Pages do not overlap. -/
theorem pageBytes_written_of_ne {other : PageId} (hlen : data.length ≤ store.pageSize)
    (hne : other ≠ page) : pageBytes (written store page data) other = pageBytes store other := by
  have hval : other.val.toNat ≠ page.val.toNat := by
    intro heq
    apply hne
    cases other
    cases page
    rw [PageId.mk.injEq]
    exact UInt32.toNat_inj.mp heq
  refine File.window_writeAll_of_disjoint store.file (store.offset page) data ?_
  rcases Nat.lt_or_gt_of_ne hval with hlt | hgt
  · exact Or.inl (offset_le hlt)
  · exact Or.inr (Nat.le_trans (Nat.add_le_add_left hlen _) (offset_le hgt))

end Pages

section Mirrors

/-- The pages of the file are those of the in-memory store. -/
structure Mirrors (store : MmapStorage) (memory : EphemeralStorage) : Prop where
  pageSize : store.pageSize = 8192
  pages : ∀ page, readPage memory page = .ok (pageBytes store page)

theorem mirrors_new : Mirrors (.openFile 8192 (by decide)) .new where
  pageSize := rfl
  pages page := by
    have hempty : EphemeralStorage.new.pages.lookup page = none := AList.lookup_empty page
    have hzeros : pageBytes (.openFile 8192 (by decide)) page = zeroPage := File.window_zeros _ _ _
    rw [EphemeralStorage.readPage_eq, hempty, hzeros]
    rfl

variable {store : MmapStorage} {memory : EphemeralStorage}

theorem Mirrors.read (h : Mirrors store memory) {page : PageId} (hin : InFile store page) :
    readPage store page = readPage memory page := by
  rw [readPage_inFile hin, h.pages page]

theorem Mirrors.write (h : Mirrors store memory) (page : PageId) {data : Bytes}
    (hlen : data.length = 8192) :
    Mirrors (written store page data) (writePage memory page data).2 where
  pageSize := h.pageSize
  pages other := by
    have hsize : data.length = store.pageSize := hlen.trans h.pageSize.symm
    rcases eq_or_ne other page with rfl | hne
    · rw [LawfulStorage.read_write_self, pageBytes_written_self hsize]
    · rw [LawfulStorage.read_write_of_ne _ _ _ _ hne, h.pages other,
        pageBytes_written_of_ne (Nat.le_of_eq hsize) hne]

end Mirrors

end PostgressRs.Storage.FileStore
