import MumbleSip.Audio.Wav

/-!
# Well-formed WAV files

A file of chunks with exact sizes. The repair sets the size of the `data` chunk to the rest of the file, also
where that size is right and other chunks or a byte of padding follow.
-/

namespace MumbleSip

open Bytes Riff

structure WavFile where
  chunks : List Chunk
  hasData : ∃ c ∈ chunks, c.id = dataId
  sizeLt : 4 + (chunks.flatMap Chunk.bytes).length < 2 ^ 32

namespace WavFile

variable {f : WavFile} {c : Chunk} {before after : List Chunk}

def body (f : WavFile) : List UInt8 := f.chunks.flatMap Chunk.bytes

def bytes (f : WavFile) : List UInt8 := riffId ++ (Bytes.ofNat 4 (4 + f.body.length) ++ (waveId ++ f.body))

/-- What stands before the chunks. -/
def header (f : WavFile) : List UInt8 := riffId ++ (Bytes.ofNat 4 (4 + f.body.length) ++ waveId)

theorem bytes_eq (f : WavFile) : f.bytes = f.header ++ f.body := by
  simp only [bytes, header, List.append_assoc]

theorem length_header (f : WavFile) : f.header.length = 12 := by
  rw [header, List.length_append, List.length_append, length_ofNat]
  rfl

theorem length_bytes (f : WavFile) : f.bytes.length = 12 + f.body.length := by
  rw [bytes_eq, List.length_append, length_header]

theorem length_bytes_lt (f : WavFile) : f.bytes.length < 2 ^ 32 + 8 := by
  have hsize : 4 + f.body.length < 2 ^ 32 := f.sizeLt
  rw [length_bytes]
  omega

theorem isWave (f : WavFile) : IsWave f.bytes := by
  constructor
  · rw [length_bytes]
    exact Nat.le_add_right _ _
  · exact slice_append [] riffId _
  · have hslice := slice_append (riffId ++ Bytes.ofNat 4 (4 + f.body.length)) waveId f.body
    rw [List.append_assoc, List.length_append, length_ofNat] at hslice
    exact hslice

theorem riffSize (f : WavFile) : value (slice f.bytes 4 4) = f.bytes.length - 8 := by
  have hslice := slice_append riffId (Bytes.ofNat 4 (4 + f.body.length)) (waveId ++ f.body)
  rw [length_ofNat] at hslice
  have hvalue : value (slice f.bytes 4 4) = 4 + f.body.length := by
    rw [bytes]
    exact (congrArg value hslice).trans (value_ofNat f.sizeLt)
  rw [hvalue, length_bytes]
  omega

theorem exists_first_data {chunks : List Chunk} (h : ∃ c ∈ chunks, c.id = dataId) :
    ∃ before c after, chunks = before ++ c :: after ∧ (∀ b ∈ before, b.id ≠ dataId) ∧ c.id = dataId := by
  induction chunks with
  | nil =>
    obtain ⟨c, hc, _⟩ := h
    exact absurd hc List.not_mem_nil
  | cons a chunks ih =>
    by_cases ha : a.id = dataId
    · exact ⟨[], a, chunks, rfl, fun b hb => absurd hb List.not_mem_nil, ha⟩
    · have hrest : ∃ c ∈ chunks, c.id = dataId := by
        obtain ⟨c, hc, hid⟩ := h
        rcases List.mem_cons.1 hc with heq | hmem
        · exact absurd (heq ▸ hid) ha
        · exact ⟨c, hmem, hid⟩
      obtain ⟨before, c, after, heq, hbefore, hid⟩ := ih hrest
      refine ⟨a :: before, c, after, by rw [heq, List.cons_append], ?_, hid⟩
      intro b hb
      rcases List.mem_cons.1 hb with heq | hmem
      · exact heq ▸ ha
      · exact hbefore b hmem

/-- The walk over the chunks finds the first `data` chunk with its size, and what follows it. -/
theorem first_data (hchunks : f.chunks = before ++ c :: after) (hbefore : ∀ b ∈ before, b.id ≠ dataId)
    (hid : c.id = dataId) :
    ∃ o, First dataId f.bytes 12 o ∧ value (slice f.bytes (o + 4) 4) = c.size ∧
      f.bytes.length - (o + 8) = c.size + c.size % 2 + (after.flatMap Chunk.bytes).length := by
  have hbytes : f.bytes =
      f.header ++ (before.flatMap Chunk.bytes ++ (c.bytes ++ after.flatMap Chunk.bytes)) := by
    rw [bytes_eq, body, hchunks, List.flatMap_append, List.flatMap_cons]
  have hfirst := c.first_flatMap before hbefore hid f.header (after.flatMap Chunk.bytes)
  have hsize := c.chunkSize_append (f.header ++ before.flatMap Chunk.bytes) (after.flatMap Chunk.bytes)
  rw [List.append_assoc, ← hbytes] at hsize
  rw [← hbytes, length_header] at hfirst
  refine ⟨_, hfirst, hsize, ?_⟩
  rw [hbytes, List.length_append, List.length_append, List.length_append, List.length_append,
    Chunk.length_bytes]
  omega

theorem flatMap_bytes_eq_nil (chunks : List Chunk) :
    (chunks.flatMap Chunk.bytes).length = 0 ↔ chunks = [] := by
  cases chunks with
  | nil => exact iff_of_true rfl rfl
  | cons c chunks =>
    rw [List.flatMap_cons, List.length_append, Chunk.length_bytes]
    exact iff_of_false (by omega) (List.cons_ne_nil c chunks)

theorem normalizeStreamedWav_self_iff_of_first (hchunks : f.chunks = before ++ c :: after)
    (hbefore : ∀ b ∈ before, b.id ≠ dataId) (hid : c.id = dataId) :
    normalizeStreamedWav f.bytes = some f.bytes ↔ after = [] ∧ c.size % 2 = 0 := by
  obtain ⟨o, hfirst, hsize, hrest⟩ := first_data hchunks hbefore hid
  have hempty := flatMap_bytes_eq_nil after
  have hexact : f.bytes.length - (o + 8) = c.size ↔ after = [] ∧ c.size % 2 = 0 := by
    rw [hrest, ← hempty]
    omega
  rw [← hexact]
  constructor
  · intro hself
    obtain ⟨out, heq, hrepaired⟩ := f.isWave.repaired f.length_bytes_lt
    have hout : f.bytes = out := Option.some.inj (hself.symm.trans heq)
    subst hout
    rw [← hrepaired.dataSize f.isWave o hfirst, hsize]
  · intro hdata
    apply f.isWave.normalizeStreamedWav_self f.length_bytes_lt f.riffSize
    intro o' hfirst'
    rw [← hfirst.unique hfirst', hsize, hdata]

/-- A well-formed file stays as it is exactly if its first `data` chunk ends it and needs no padding. -/
theorem normalizeStreamedWav_self_iff (f : WavFile) :
    normalizeStreamedWav f.bytes = some f.bytes ↔
      ∃ before c, f.chunks = before ++ [c] ∧ (∀ b ∈ before, b.id ≠ dataId) ∧ c.id = dataId ∧
        c.size % 2 = 0 := by
  constructor
  · intro hself
    obtain ⟨before, c, after, hchunks, hbefore, hid⟩ := exists_first_data f.hasData
    obtain ⟨hafter, heven⟩ := (normalizeStreamedWav_self_iff_of_first hchunks hbefore hid).1 hself
    subst hafter
    exact ⟨before, c, hchunks, hbefore, hid, heven⟩
  · rintro ⟨before, c, hchunks, hbefore, hid, heven⟩
    exact (normalizeStreamedWav_self_iff_of_first hchunks hbefore hid).2 ⟨rfl, heven⟩

end WavFile

/-- Two samples, and behind them a chunk of another kind. -/
def annotatedWav : WavFile where
  chunks := [⟨dataId, [1, 0, 2, 0], 0, rfl, by decide⟩, ⟨['L', 'I', 'S', 'T'].map Char.toUInt8, [], 0, rfl, by decide⟩]
  hasData := ⟨_, List.mem_cons_self, rfl⟩
  sizeLt := by decide

theorem normalizeStreamedWav_annotatedWav :
    normalizeStreamedWav annotatedWav.bytes ≠ some annotatedWav.bytes := by
  intro hself
  have hbefore : ∀ b ∈ ([] : List Chunk), b.id ≠ dataId := fun b hb => absurd hb List.not_mem_nil
  have hiff := WavFile.normalizeStreamedWav_self_iff_of_first (f := annotatedWav) rfl hbefore rfl
  exact List.cons_ne_nil _ _ (hiff.1 hself).1

end MumbleSip
