import Mathlib.Algebra.Order.Ring.Nat
import Mathlib.Algebra.BigOperators.Group.List.Basic
import Mathlib.Data.List.Chain
import RootLake.Lib.Greedy

/-!
# The plan of a production

A production indexes the files of a manifest in chunks, one worker for each.
`plan_chunks.py` fills the chunks in the order of the manifest, under a cap on the number of
files and one on their bytes: a file that would break a cap ends the chunk ahead of it.
-/

namespace RootLake.Production

/-- A file of the manifest; `size` is 0 where the row has none. -/
structure ManifestFile where
  sourceId : String
  uri : String
  size : Nat
  deriving DecidableEq

structure Chunk where
  chunkId : String
  files : List ManifestFile
  fileCount : Nat
  estimatedBytes : Nat
  deriving DecidableEq

/-- The limits of the command line that `main` lets through; 0 is no cap. -/
structure ChunkLimits where
  maxFiles : Nat
  maxBytes : Nat
  targetChunkSeconds : Nat
  throughputBytesPerSecond : Nat
  together : targetChunkSeconds = 0 ↔ throughputBytesPerSecond = 0

def checkLimits (maxFiles maxBytes targetChunkSeconds throughputBytesPerSecond : Int) :
    Except String ChunkLimits :=
  if maxFiles < 0 ∨ maxBytes < 0 ∨ targetChunkSeconds < 0 ∨ throughputBytesPerSecond < 0 then
    .error "chunk limits cannot be negative"
  else if h : targetChunkSeconds.toNat = 0 ↔ throughputBytesPerSecond.toNat = 0 then
    .ok ⟨maxFiles.toNat, maxBytes.toNat, targetChunkSeconds.toNat,
      throughputBytesPerSecond.toNat, h⟩
  else .error "target chunk seconds and measured throughput must be supplied together"

/-- The cap on bytes: the given one, else the one of the measured rate. -/
def ChunkLimits.byteCap (limits : ChunkLimits) : Nat :=
  if limits.maxBytes = 0 ∧ limits.targetChunkSeconds ≠ 0 then
    limits.targetChunkSeconds * limits.throughputBytesPerSecond
  else limits.maxBytes

/-- The variables of the loop. -/
structure Filling where
  chunks : List Chunk
  current : List ManifestFile
  currentBytes : Nat

section Loop

-- the hash over the source ids of a chunk and what the plan is for
variable (chunkId : List String → String)

def flush (state : Filling) : Filling :=
  if state.current.isEmpty then state
  else
    { chunks := state.chunks ++ [{
        chunkId := chunkId (state.current.map ManifestFile.sourceId)
        files := state.current
        fileCount := state.current.length
        estimatedBytes := state.currentBytes }]
      current := []
      currentBytes := 0 }

def addFile (limits : ChunkLimits) (state : Filling) (row : ManifestFile) : Filling :=
  let fileCap := 0 < limits.maxFiles && decide (limits.maxFiles ≤ state.current.length)
  let byteCap := 0 < limits.byteCap && decide (limits.byteCap < state.currentBytes + row.size)
  let state := if !state.current.isEmpty && (fileCap || byteCap) then flush chunkId state else state
  { state with
    current := state.current ++ [row]
    currentBytes := state.currentBytes + row.size }

def planChunks (limits : ChunkLimits) (files : List ManifestFile) : List Chunk :=
  (flush chunkId (files.foldl (addFile chunkId limits) ⟨[], [], 0⟩)).chunks

end Loop

/-! ### The plan as a greedy partition -/

def totalSize (files : List ManifestFile) : Nat := (files.map ManifestFile.size).sum

/-- Too many files, or too many bytes. -/
def ChunkLimits.Exceeded (limits : ChunkLimits) (files : List ManifestFile) : Prop :=
  0 < limits.maxFiles ∧ limits.maxFiles < files.length ∨
    0 < limits.byteCap ∧ limits.byteCap < totalSize files

instance (limits : ChunkLimits) (files : List ManifestFile) : Decidable (limits.Exceeded files) :=
  inferInstanceAs (Decidable (_ ∨ _))

/-- A file fits behind others when no cap is exceeded. -/
def ChunkLimits.fits (limits : ChunkLimits) (current : List ManifestFile) (row : ManifestFile) :
    Bool :=
  !decide (limits.Exceeded (current ++ [row]))

theorem totalSize_append (files : List ManifestFile) (row : ManifestFile) :
    totalSize (files ++ [row]) = totalSize files + row.size := by
  simp [totalSize]

/-- The entry of a plan for the files of a chunk. -/
def chunkOf (chunkId : List String → String) (files : List ManifestFile) : Chunk where
  chunkId := chunkId (files.map ManifestFile.sourceId)
  files := files
  fileCount := files.length
  estimatedBytes := totalSize files

section Refinement

variable {chunkId : List String → String} {limits : ChunkLimits}

theorem flush_eq {state : Filling} (h : state.currentBytes = totalSize state.current)
    (hsome : state.current ≠ []) :
    flush chunkId state = ⟨state.chunks ++ [chunkOf chunkId state.current], [], 0⟩ := by
  rw [flush, if_neg (by simpa using hsome), h]
  rfl

/-- One file: it joins the current chunk, or ends it and starts the next. -/
theorem addFile_eq {state : Filling} (h : state.currentBytes = totalSize state.current)
    (row : ManifestFile) :
    addFile chunkId limits state row =
      if !state.current.isEmpty && !limits.fits state.current row then
        ⟨state.chunks ++ [chunkOf chunkId state.current], [row], row.size⟩
      else ⟨state.chunks, state.current ++ [row], state.currentBytes + row.size⟩ := by
  have hcaps : (0 < limits.maxFiles && decide (limits.maxFiles ≤ state.current.length) ||
      0 < limits.byteCap && decide (limits.byteCap < state.currentBytes + row.size)) =
        !limits.fits state.current row := by
    rw [Bool.eq_iff_iff]
    simp only [ChunkLimits.fits, ChunkLimits.Exceeded, totalSize_append, h, List.length_append,
      List.length_singleton, Nat.lt_add_one_iff, Bool.not_not, Bool.or_eq_true, Bool.and_eq_true,
      decide_eq_true_eq]
  rw [addFile]
  simp only [hcaps]
  split_ifs with hflush
  · have hsome : state.current ≠ [] := by simpa using (Bool.and_eq_true_iff.mp hflush).1
    rw [flush_eq h hsome]
    simp
  · rfl

/-- The loop fills chunks greedily. -/
theorem foldl_addFile (files : List ManifestFile) :
    ∀ {state : Filling}, state.currentBytes = totalSize state.current →
      (flush chunkId (files.foldl (addFile chunkId limits) state)).chunks =
        state.chunks ++
          (Greedy.chunks limits.fits state.current files).map (chunkOf chunkId) := by
  induction files with
  | nil =>
    intro state h
    rw [List.foldl_nil, Greedy.chunks]
    by_cases hempty : state.current = []
    · rw [flush, if_pos (by simpa using hempty), if_pos (by simpa using hempty), List.map_nil,
        List.append_nil]
    · rw [flush_eq h hempty, if_neg (by simpa using hempty), List.map_singleton]
  | cons row files ih =>
    intro state h
    rw [List.foldl_cons, addFile_eq h, Greedy.chunks]
    split_ifs
    · rw [ih (by simp [totalSize]), List.map_cons, List.append_assoc, List.singleton_append]
    · exact ih (by rw [h, totalSize_append])

theorem planChunks_eq (files : List ManifestFile) :
    planChunks chunkId limits files =
      (Greedy.chunks limits.fits [] files).map (chunkOf chunkId) :=
  (foldl_addFile files rfl).trans (List.nil_append _)

/-- A chunk that was filled keeps the caps, but for a single file. -/
theorem not_exceeded_of_filled {files : List ManifestFile}
    (h : Greedy.Filled limits.fits files) (hmore : 1 < files.length) :
    ¬ limits.Exceeded files := by
  obtain ⟨front, row, rfl⟩ := List.eq_nil_or_concat files |>.resolve_left
    (by rintro rfl; exact absurd hmore (by decide))
  have hfront : front ≠ [] := by
    rintro rfl
    exact absurd hmore (by simp)
  have hfits := h front row hfront (List.concat_eq_append ▸ List.prefix_rfl)
  rw [List.concat_eq_append]
  simpa [ChunkLimits.fits] using hfits

end Refinement

/-- What a plan promises of its chunks. -/
structure GreedyPartition (limits : ChunkLimits) (files : List ManifestFile)
    (chunks : List Chunk) : Prop where
  nonempty : ∀ chunk ∈ chunks, chunk.files ≠ []
  inOrder : (chunks.map Chunk.files).flatten = files
  fileCap : 0 < limits.maxFiles → ∀ chunk ∈ chunks, chunk.files.length ≤ limits.maxFiles
  byteCap : 0 < limits.byteCap → ∀ chunk ∈ chunks, 1 < chunk.files.length →
    totalSize chunk.files ≤ limits.byteCap
  counted : ∀ chunk ∈ chunks, chunk.fileCount = chunk.files.length ∧
    chunk.estimatedBytes = totalSize chunk.files
  full : chunks.IsChain fun chunk next =>
    ∃ row rest, next.files = row :: rest ∧ limits.Exceeded (chunk.files ++ [row])

/-- **Every plan is a greedy partition** of its manifest. -/
theorem planChunks_greedy (chunkId : List String → String) (limits : ChunkLimits)
    (files : List ManifestFile) :
    GreedyPartition limits files (planChunks chunkId limits files) := by
  have hfilled := Greedy.filled_of_mem_chunks limits.fits files (Greedy.filled_nil limits.fits)
  have hmap : ((planChunks chunkId limits files).map Chunk.files) =
      Greedy.chunks limits.fits [] files := by
    rw [planChunks_eq, List.map_map]
    exact List.map_id _
  have hchunk : ∀ chunk ∈ planChunks chunkId limits files,
      ∃ group ∈ Greedy.chunks limits.fits [] files, chunkOf chunkId group = chunk := by
    rw [planChunks_eq]
    exact fun chunk => List.mem_map.mp
  refine ⟨?_, ?_, ?_, ?_, ?_, ?_⟩
  · intro chunk hmem
    obtain ⟨group, hgroup, rfl⟩ := hchunk chunk hmem
    exact (hfilled group hgroup).1
  · rw [hmap, Greedy.flatten_chunks, List.nil_append]
  · intro hcap chunk hmem
    obtain ⟨group, hgroup, rfl⟩ := hchunk chunk hmem
    by_contra hlong
    have hmore : 1 < group.length := by
      have : limits.maxFiles < group.length := Nat.not_le.mp hlong
      omega
    exact not_exceeded_of_filled (hfilled group hgroup).2 hmore
      (Or.inl ⟨hcap, Nat.not_le.mp hlong⟩)
  · intro hcap chunk hmem hmore
    obtain ⟨group, hgroup, rfl⟩ := hchunk chunk hmem
    by_contra hlarge
    exact not_exceeded_of_filled (hfilled group hgroup).2 hmore
      (Or.inr ⟨hcap, Nat.not_le.mp hlarge⟩)
  · intro chunk hmem
    obtain ⟨group, _, rfl⟩ := hchunk chunk hmem
    exact ⟨rfl, rfl⟩
  · rw [planChunks_eq, List.isChain_map]
    refine (Greedy.isChain_chunks limits.fits files []).imp ?_
    rintro chunk next ⟨row, rest, hnext, hfull⟩
    exact ⟨row, rest, hnext, by simpa [ChunkLimits.fits, chunkOf] using hfull⟩

-- A file as large as the cap is a chunk of its own.
example : (planChunks (fun _ => "") ⟨0, 10, 0, 0, Iff.rfl⟩
    [⟨"a", "a", 4⟩, ⟨"b", "b", 6⟩, ⟨"c", "c", 12⟩, ⟨"d", "d", 1⟩]).map Chunk.estimatedBytes =
      [10, 12, 1] := by
  decide

end RootLake.Production
