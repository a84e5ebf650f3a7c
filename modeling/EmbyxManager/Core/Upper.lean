import Mathlib.Data.List.Basic
/-!
# Upper case

`str.upper`: every character by itself, some into several. What it writes is upper case
already, so a text that went through it stays as it is, and so does every part of it.
-/

namespace EmbyxManager.Core

/-! ## The table -/

/-- Characters in steps from `first` to `last`, each `up` above or below its upper case. -/
structure CaseRun where
  first : Nat
  last : Nat
  step : Nat
  up : Int

/-- The characters with one character for their upper case. -/
def upperRuns : List CaseRun :=
  [⟨0x61, 0x7A, 1, -32⟩, ⟨0xB5, 0xB5, 2, 743⟩, ⟨0xE0, 0xF6, 1, -32⟩, ⟨0xF8, 0xFE, 1, -32⟩, ⟨0xFF, 0xFF, 2, 121⟩,
   ⟨0x101, 0x12F, 2, -1⟩, ⟨0x131, 0x131, 2, -232⟩, ⟨0x133, 0x137, 2, -1⟩, ⟨0x13A, 0x148, 2, -1⟩, ⟨0x14B, 0x177, 2, -1⟩,
   ⟨0x17A, 0x17E, 2, -1⟩, ⟨0x17F, 0x17F, 2, -300⟩, ⟨0x180, 0x180, 2, 195⟩, ⟨0x183, 0x185, 2, -1⟩, ⟨0x188, 0x188, 2, -1⟩,
   ⟨0x18C, 0x18C, 2, -1⟩, ⟨0x192, 0x192, 2, -1⟩, ⟨0x195, 0x195, 2, 97⟩, ⟨0x199, 0x199, 2, -1⟩, ⟨0x19A, 0x19A, 2, 163⟩,
   ⟨0x19E, 0x19E, 2, 130⟩, ⟨0x1A1, 0x1A5, 2, -1⟩, ⟨0x1A8, 0x1A8, 2, -1⟩, ⟨0x1AD, 0x1AD, 2, -1⟩, ⟨0x1B0, 0x1B0, 2, -1⟩,
   ⟨0x1B4, 0x1B6, 2, -1⟩, ⟨0x1B9, 0x1B9, 2, -1⟩, ⟨0x1BD, 0x1BD, 2, -1⟩, ⟨0x1BF, 0x1BF, 2, 56⟩, ⟨0x1C5, 0x1C5, 2, -1⟩,
   ⟨0x1C6, 0x1C6, 2, -2⟩, ⟨0x1C8, 0x1C8, 2, -1⟩, ⟨0x1C9, 0x1C9, 2, -2⟩, ⟨0x1CB, 0x1CB, 2, -1⟩, ⟨0x1CC, 0x1CC, 2, -2⟩,
   ⟨0x1CE, 0x1DC, 2, -1⟩, ⟨0x1DD, 0x1DD, 2, -79⟩, ⟨0x1DF, 0x1EF, 2, -1⟩, ⟨0x1F2, 0x1F2, 2, -1⟩, ⟨0x1F3, 0x1F3, 2, -2⟩,
   ⟨0x1F5, 0x1F5, 2, -1⟩, ⟨0x1F9, 0x21F, 2, -1⟩, ⟨0x223, 0x233, 2, -1⟩, ⟨0x23C, 0x23C, 2, -1⟩, ⟨0x23F, 0x240, 1, 10815⟩,
   ⟨0x242, 0x242, 2, -1⟩, ⟨0x247, 0x24F, 2, -1⟩, ⟨0x250, 0x250, 2, 10783⟩, ⟨0x251, 0x251, 2, 10780⟩,
   ⟨0x252, 0x252, 2, 10782⟩, ⟨0x253, 0x253, 2, -210⟩, ⟨0x254, 0x254, 2, -206⟩, ⟨0x256, 0x257, 1, -205⟩,
   ⟨0x259, 0x259, 2, -202⟩, ⟨0x25B, 0x25B, 2, -203⟩, ⟨0x25C, 0x25C, 2, 42319⟩, ⟨0x260, 0x260, 2, -205⟩,
   ⟨0x261, 0x261, 2, 42315⟩, ⟨0x263, 0x263, 2, -207⟩, ⟨0x265, 0x265, 2, 42280⟩, ⟨0x266, 0x266, 2, 42308⟩,
   ⟨0x268, 0x268, 2, -209⟩, ⟨0x269, 0x269, 2, -211⟩, ⟨0x26A, 0x26A, 2, 42308⟩, ⟨0x26B, 0x26B, 2, 10743⟩,
   ⟨0x26C, 0x26C, 2, 42305⟩, ⟨0x26F, 0x26F, 2, -211⟩, ⟨0x271, 0x271, 2, 10749⟩, ⟨0x272, 0x272, 2, -213⟩,
   ⟨0x275, 0x275, 2, -214⟩, ⟨0x27D, 0x27D, 2, 10727⟩, ⟨0x280, 0x280, 2, -218⟩, ⟨0x282, 0x282, 2, 42307⟩,
   ⟨0x283, 0x283, 2, -218⟩, ⟨0x287, 0x287, 2, 42282⟩, ⟨0x288, 0x288, 2, -218⟩, ⟨0x289, 0x289, 2, -69⟩,
   ⟨0x28A, 0x28B, 1, -217⟩, ⟨0x28C, 0x28C, 2, -71⟩, ⟨0x292, 0x292, 2, -219⟩, ⟨0x29D, 0x29D, 2, 42261⟩,
   ⟨0x29E, 0x29E, 2, 42258⟩, ⟨0x345, 0x345, 2, 84⟩, ⟨0x371, 0x373, 2, -1⟩, ⟨0x377, 0x377, 2, -1⟩, ⟨0x37B, 0x37D, 1, 130⟩,
   ⟨0x3AC, 0x3AC, 2, -38⟩, ⟨0x3AD, 0x3AF, 1, -37⟩, ⟨0x3B1, 0x3C1, 1, -32⟩, ⟨0x3C2, 0x3C2, 2, -31⟩, ⟨0x3C3, 0x3CB, 1, -32⟩,
   ⟨0x3CC, 0x3CC, 2, -64⟩, ⟨0x3CD, 0x3CE, 1, -63⟩, ⟨0x3D0, 0x3D0, 2, -62⟩, ⟨0x3D1, 0x3D1, 2, -57⟩, ⟨0x3D5, 0x3D5, 2, -47⟩,
   ⟨0x3D6, 0x3D6, 2, -54⟩, ⟨0x3D7, 0x3D7, 2, -8⟩, ⟨0x3D9, 0x3EF, 2, -1⟩, ⟨0x3F0, 0x3F0, 2, -86⟩, ⟨0x3F1, 0x3F1, 2, -80⟩,
   ⟨0x3F2, 0x3F2, 2, 7⟩, ⟨0x3F3, 0x3F3, 2, -116⟩, ⟨0x3F5, 0x3F5, 2, -96⟩, ⟨0x3F8, 0x3F8, 2, -1⟩, ⟨0x3FB, 0x3FB, 2, -1⟩,
   ⟨0x430, 0x44F, 1, -32⟩, ⟨0x450, 0x45F, 1, -80⟩, ⟨0x461, 0x481, 2, -1⟩, ⟨0x48B, 0x4BF, 2, -1⟩, ⟨0x4C2, 0x4CE, 2, -1⟩,
   ⟨0x4CF, 0x4CF, 2, -15⟩, ⟨0x4D1, 0x52F, 2, -1⟩, ⟨0x561, 0x586, 1, -48⟩, ⟨0x10D0, 0x10FA, 1, 3008⟩,
   ⟨0x10FD, 0x10FF, 1, 3008⟩, ⟨0x13F8, 0x13FD, 1, -8⟩, ⟨0x1C80, 0x1C80, 2, -6254⟩, ⟨0x1C81, 0x1C81, 2, -6253⟩,
   ⟨0x1C82, 0x1C82, 2, -6244⟩, ⟨0x1C83, 0x1C84, 1, -6242⟩, ⟨0x1C85, 0x1C85, 2, -6243⟩, ⟨0x1C86, 0x1C86, 2, -6236⟩,
   ⟨0x1C87, 0x1C87, 2, -6181⟩, ⟨0x1C88, 0x1C88, 2, 35266⟩, ⟨0x1D79, 0x1D79, 2, 35332⟩, ⟨0x1D7D, 0x1D7D, 2, 3814⟩,
   ⟨0x1D8E, 0x1D8E, 2, 35384⟩, ⟨0x1E01, 0x1E95, 2, -1⟩, ⟨0x1E9B, 0x1E9B, 2, -59⟩, ⟨0x1EA1, 0x1EFF, 2, -1⟩,
   ⟨0x1F00, 0x1F07, 1, 8⟩, ⟨0x1F10, 0x1F15, 1, 8⟩, ⟨0x1F20, 0x1F27, 1, 8⟩, ⟨0x1F30, 0x1F37, 1, 8⟩, ⟨0x1F40, 0x1F45, 1, 8⟩,
   ⟨0x1F51, 0x1F57, 2, 8⟩, ⟨0x1F60, 0x1F67, 1, 8⟩, ⟨0x1F70, 0x1F71, 1, 74⟩, ⟨0x1F72, 0x1F75, 1, 86⟩,
   ⟨0x1F76, 0x1F77, 1, 100⟩, ⟨0x1F78, 0x1F79, 1, 128⟩, ⟨0x1F7A, 0x1F7B, 1, 112⟩, ⟨0x1F7C, 0x1F7D, 1, 126⟩,
   ⟨0x1FB0, 0x1FB1, 1, 8⟩, ⟨0x1FBE, 0x1FBE, 2, -7205⟩, ⟨0x1FD0, 0x1FD1, 1, 8⟩, ⟨0x1FE0, 0x1FE1, 1, 8⟩,
   ⟨0x1FE5, 0x1FE5, 2, 7⟩, ⟨0x214E, 0x214E, 2, -28⟩, ⟨0x2170, 0x217F, 1, -16⟩, ⟨0x2184, 0x2184, 2, -1⟩,
   ⟨0x24D0, 0x24E9, 1, -26⟩, ⟨0x2C30, 0x2C5F, 1, -48⟩, ⟨0x2C61, 0x2C61, 2, -1⟩, ⟨0x2C65, 0x2C65, 2, -10795⟩,
   ⟨0x2C66, 0x2C66, 2, -10792⟩, ⟨0x2C68, 0x2C6C, 2, -1⟩, ⟨0x2C73, 0x2C73, 2, -1⟩, ⟨0x2C76, 0x2C76, 2, -1⟩,
   ⟨0x2C81, 0x2CE3, 2, -1⟩, ⟨0x2CEC, 0x2CEE, 2, -1⟩, ⟨0x2CF3, 0x2CF3, 2, -1⟩, ⟨0x2D00, 0x2D25, 1, -7264⟩,
   ⟨0x2D27, 0x2D27, 2, -7264⟩, ⟨0x2D2D, 0x2D2D, 2, -7264⟩, ⟨0xA641, 0xA66D, 2, -1⟩, ⟨0xA681, 0xA69B, 2, -1⟩,
   ⟨0xA723, 0xA72F, 2, -1⟩, ⟨0xA733, 0xA76F, 2, -1⟩, ⟨0xA77A, 0xA77C, 2, -1⟩, ⟨0xA77F, 0xA787, 2, -1⟩,
   ⟨0xA78C, 0xA78C, 2, -1⟩, ⟨0xA791, 0xA793, 2, -1⟩, ⟨0xA794, 0xA794, 2, 48⟩, ⟨0xA797, 0xA7A9, 2, -1⟩,
   ⟨0xA7B5, 0xA7C3, 2, -1⟩, ⟨0xA7C8, 0xA7CA, 2, -1⟩, ⟨0xA7D1, 0xA7D1, 2, -1⟩, ⟨0xA7D7, 0xA7D9, 2, -1⟩,
   ⟨0xA7F6, 0xA7F6, 2, -1⟩, ⟨0xAB53, 0xAB53, 2, -928⟩, ⟨0xAB70, 0xABBF, 1, -38864⟩, ⟨0xFF41, 0xFF5A, 1, -32⟩,
   ⟨0x10428, 0x1044F, 1, -40⟩, ⟨0x104D8, 0x104FB, 1, -40⟩, ⟨0x10597, 0x105A1, 1, -39⟩, ⟨0x105A3, 0x105B1, 1, -39⟩,
   ⟨0x105B3, 0x105B9, 1, -39⟩, ⟨0x105BB, 0x105BC, 1, -39⟩, ⟨0x10CC0, 0x10CF2, 1, -64⟩, ⟨0x118C0, 0x118DF, 1, -32⟩,
   ⟨0x16E60, 0x16E7F, 1, -32⟩, ⟨0x1E922, 0x1E943, 1, -34⟩]

/-- The characters with several. -/
def upperSpecial : List (Nat × List Nat) :=
  [(0xDF, [0x53, 0x53]), (0x149, [0x2BC, 0x4E]), (0x1F0, [0x4A, 0x30C]), (0x390, [0x399, 0x308, 0x301]),
   (0x3B0, [0x3A5, 0x308, 0x301]), (0x587, [0x535, 0x552]), (0x1E96, [0x48, 0x331]), (0x1E97, [0x54, 0x308]),
   (0x1E98, [0x57, 0x30A]), (0x1E99, [0x59, 0x30A]), (0x1E9A, [0x41, 0x2BE]), (0x1F50, [0x3A5, 0x313]),
   (0x1F52, [0x3A5, 0x313, 0x300]), (0x1F54, [0x3A5, 0x313, 0x301]), (0x1F56, [0x3A5, 0x313, 0x342]),
   (0x1F80, [0x1F08, 0x399]), (0x1F81, [0x1F09, 0x399]), (0x1F82, [0x1F0A, 0x399]), (0x1F83, [0x1F0B, 0x399]),
   (0x1F84, [0x1F0C, 0x399]), (0x1F85, [0x1F0D, 0x399]), (0x1F86, [0x1F0E, 0x399]), (0x1F87, [0x1F0F, 0x399]),
   (0x1F88, [0x1F08, 0x399]), (0x1F89, [0x1F09, 0x399]), (0x1F8A, [0x1F0A, 0x399]), (0x1F8B, [0x1F0B, 0x399]),
   (0x1F8C, [0x1F0C, 0x399]), (0x1F8D, [0x1F0D, 0x399]), (0x1F8E, [0x1F0E, 0x399]), (0x1F8F, [0x1F0F, 0x399]),
   (0x1F90, [0x1F28, 0x399]), (0x1F91, [0x1F29, 0x399]), (0x1F92, [0x1F2A, 0x399]), (0x1F93, [0x1F2B, 0x399]),
   (0x1F94, [0x1F2C, 0x399]), (0x1F95, [0x1F2D, 0x399]), (0x1F96, [0x1F2E, 0x399]), (0x1F97, [0x1F2F, 0x399]),
   (0x1F98, [0x1F28, 0x399]), (0x1F99, [0x1F29, 0x399]), (0x1F9A, [0x1F2A, 0x399]), (0x1F9B, [0x1F2B, 0x399]),
   (0x1F9C, [0x1F2C, 0x399]), (0x1F9D, [0x1F2D, 0x399]), (0x1F9E, [0x1F2E, 0x399]), (0x1F9F, [0x1F2F, 0x399]),
   (0x1FA0, [0x1F68, 0x399]), (0x1FA1, [0x1F69, 0x399]), (0x1FA2, [0x1F6A, 0x399]), (0x1FA3, [0x1F6B, 0x399]),
   (0x1FA4, [0x1F6C, 0x399]), (0x1FA5, [0x1F6D, 0x399]), (0x1FA6, [0x1F6E, 0x399]), (0x1FA7, [0x1F6F, 0x399]),
   (0x1FA8, [0x1F68, 0x399]), (0x1FA9, [0x1F69, 0x399]), (0x1FAA, [0x1F6A, 0x399]), (0x1FAB, [0x1F6B, 0x399]),
   (0x1FAC, [0x1F6C, 0x399]), (0x1FAD, [0x1F6D, 0x399]), (0x1FAE, [0x1F6E, 0x399]), (0x1FAF, [0x1F6F, 0x399]),
   (0x1FB2, [0x1FBA, 0x399]), (0x1FB3, [0x391, 0x399]), (0x1FB4, [0x386, 0x399]), (0x1FB6, [0x391, 0x342]),
   (0x1FB7, [0x391, 0x342, 0x399]), (0x1FBC, [0x391, 0x399]), (0x1FC2, [0x1FCA, 0x399]), (0x1FC3, [0x397, 0x399]),
   (0x1FC4, [0x389, 0x399]), (0x1FC6, [0x397, 0x342]), (0x1FC7, [0x397, 0x342, 0x399]), (0x1FCC, [0x397, 0x399]),
   (0x1FD2, [0x399, 0x308, 0x300]), (0x1FD3, [0x399, 0x308, 0x301]), (0x1FD6, [0x399, 0x342]),
   (0x1FD7, [0x399, 0x308, 0x342]), (0x1FE2, [0x3A5, 0x308, 0x300]), (0x1FE3, [0x3A5, 0x308, 0x301]),
   (0x1FE4, [0x3A1, 0x313]), (0x1FE6, [0x3A5, 0x342]), (0x1FE7, [0x3A5, 0x308, 0x342]), (0x1FF2, [0x1FFA, 0x399]),
   (0x1FF3, [0x3A9, 0x399]), (0x1FF4, [0x38F, 0x399]), (0x1FF6, [0x3A9, 0x342]), (0x1FF7, [0x3A9, 0x342, 0x399]),
   (0x1FFC, [0x3A9, 0x399]), (0xFB00, [0x46, 0x46]), (0xFB01, [0x46, 0x49]), (0xFB02, [0x46, 0x4C]),
   (0xFB03, [0x46, 0x46, 0x49]), (0xFB04, [0x46, 0x46, 0x4C]), (0xFB05, [0x53, 0x54]), (0xFB06, [0x53, 0x54]),
   (0xFB13, [0x544, 0x546]), (0xFB14, [0x544, 0x535]), (0xFB15, [0x544, 0x53B]), (0xFB16, [0x54E, 0x546]),
   (0xFB17, [0x544, 0x53D])]

namespace CaseRun

def holds (r : CaseRun) (n : Nat) : Bool := r.first ≤ n && n ≤ r.last && (n - r.first) % r.step == 0

def upper (r : CaseRun) (n : Nat) : Nat := (n + r.up).toNat

end CaseRun

/-- `str.upper` of one character. -/
def upperChar (c : Char) : List Char :=
  match upperSpecial.lookup c.toNat with
  | some codes => codes.map Char.ofNat
  | none =>
    match upperRuns.find? (·.holds c.toNat) with
    | some r => [Char.ofNat (r.upper c.toNat)]
    | none => [c]

/-- `str.upper`. -/
def strUpper (s : List Char) : List Char := s.flatMap upperChar

/-! ## Upper case stays -/

/-- No step from `lo` to `hi` is in the run. -/
def CaseRun.apart (r : CaseRun) (lo hi step : Nat) : Bool :=
  Nat.ble (hi + 1) r.first || Nat.ble (r.last + 1) lo || (Nat.beq step 2 && Nat.beq r.step 2 && Nat.beq ((lo + r.first) % 2) 1)

theorem CaseRun.not_holds {r : CaseRun} {lo hi step n : Nat} (h : r.apart lo hi step = true) (hlo : lo ≤ n) (hhi : n ≤ hi)
    (hstep : (n - lo) % step = 0) : r.holds n = false := by
  simp only [apart, Bool.or_eq_true, Bool.and_eq_true, Nat.ble_eq, Nat.beq_eq] at h
  rw [← Bool.not_eq_true]
  intro hn
  simp only [holds, Bool.and_eq_true, decide_eq_true_eq, beq_iff_eq] at hn
  obtain ⟨⟨hfirst, hlast⟩, hmod⟩ := hn
  rcases h with (h | h) | ⟨⟨hs, hr⟩, hodd⟩
  · omega
  · omega
  · rw [hs] at hstep
    rw [hr] at hmod
    omega

/-! The table is looked through in blocks, so that most of it is passed over by the ends of a block. -/

def blocks (runs : List CaseRun) : List (List CaseRun) :=
  (List.range (runs.length / 16 + 1)).map fun i => (runs.drop (16 * i)).take 16

def lowest (block : List CaseRun) : Nat := (block.head?.map (·.first)).getD 0

def highest (block : List CaseRun) : Nat := (block.getLast?.map (·.last)).getD 0

/-- Every run of a block is between its ends. -/
def ordered (runs : List CaseRun) : Bool :=
  (blocks runs).all fun block => block.all fun r => Nat.ble (lowest block) r.first && Nat.ble r.last (highest block)

/-- No step from `lo` to `hi` is in any of the runs. -/
def clear (runs : List CaseRun) (lo hi step : Nat) : Bool :=
  (blocks runs).all fun block =>
    Nat.ble (hi + 1) (lowest block) || Nat.ble (highest block + 1) lo || block.all (·.apart lo hi step)

theorem mem_blocks {runs : List CaseRun} {r : CaseRun} (h : r ∈ runs) : ∃ block ∈ blocks runs, r ∈ block := by
  obtain ⟨k, hk, rfl⟩ := List.mem_iff_getElem.1 h
  refine ⟨_, List.mem_map.2 ⟨k / 16, List.mem_range.2 ?_, rfl⟩, List.mem_iff_getElem.2 ⟨k % 16, ?_, ?_⟩⟩
  · omega
  · rw [List.length_take, List.length_drop]
    omega
  · rw [List.getElem_take, List.getElem_drop]
    congr 1
    omega

theorem not_holds_of_clear {runs : List CaseRun} (hordered : ordered runs = true) {lo hi step n : Nat}
    (h : clear runs lo hi step = true) (hlo : lo ≤ n) (hhi : n ≤ hi) (hstep : (n - lo) % step = 0) {r : CaseRun} (hr : r ∈ runs) :
    r.holds n = false := by
  obtain ⟨block, hblock, hrblock⟩ := mem_blocks hr
  have hends := List.all_eq_true.1 (List.all_eq_true.1 hordered block hblock) r hrblock
  simp only [Bool.and_eq_true, Nat.ble_eq] at hends
  have hblock := List.all_eq_true.1 h block hblock
  simp only [Bool.or_eq_true, Nat.ble_eq] at hblock
  have outside : hi < r.first ∨ r.last < lo → r.holds n = false := by
    intro hout
    rw [← Bool.not_eq_true]
    intro hn
    simp only [CaseRun.holds, Bool.and_eq_true, decide_eq_true_eq] at hn
    omega
  rcases hblock with (hblock | hblock) | hblock
  · exact outside (by omega)
  · exact outside (by omega)
  · exact CaseRun.not_holds (List.all_eq_true.1 hblock r hrblock) hlo hhi hstep

def specialRuns : List CaseRun := upperSpecial.map fun e => ⟨e.1, e.1, 2, 0⟩

set_option maxRecDepth 4000 in
theorem upperRuns_ordered : ordered upperRuns = true := by decide

theorem specialRuns_ordered : ordered specialRuns = true := by decide

/-- The characters from `lo` to `hi` are their own upper case. -/
def settled (lo hi step : Nat) : Bool :=
  clear upperRuns lo hi step && clear specialRuns lo hi step && (Nat.ble hi 0xD7FF || (Nat.ble 0xE000 lo && Nat.ble hi 0x10FFFF))

set_option maxRecDepth 4000 in
theorem runs_settled : (upperRuns.all fun r =>
    Nat.ble 1 r.step && decide (0 ≤ r.first + r.up) && settled (r.upper r.first) (r.upper r.last) r.step) = true := by decide

set_option maxRecDepth 4000 in
theorem special_settled : (upperSpecial.all fun e => e.2 != [] && e.2.all fun n => settled n n 2) = true := by decide

theorem lookup_of_clear {lo hi step n : Nat} (h : clear specialRuns lo hi step = true) (hlo : lo ≤ n) (hhi : n ≤ hi)
    (hstep : (n - lo) % step = 0) : upperSpecial.lookup n = none := by
  rw [List.lookup_eq_none_iff]
  intro e he
  have hne := not_holds_of_clear specialRuns_ordered h hlo hhi hstep (List.mem_map.2 ⟨e, he, rfl⟩)
  rw [bne_iff_ne]
  rintro rfl
  simp [CaseRun.holds] at hne

theorem upperChar_of_settled {lo hi step n : Nat} (h : settled lo hi step = true) (hlo : lo ≤ n) (hhi : n ≤ hi)
    (hstep : (n - lo) % step = 0) : upperChar (Char.ofNat n) = [Char.ofNat n] := by
  simp only [settled, Bool.and_eq_true, Bool.or_eq_true, Nat.ble_eq] at h
  obtain ⟨⟨hruns, hspecial⟩, hvalid⟩ := h
  have hn : (Char.ofNat n).toNat = n := by
    have hchar : n.isValidChar := by
      unfold Nat.isValidChar
      omega
    rw [Char.ofNat, dif_pos hchar]
    rfl
  have hfind : upperRuns.find? (·.holds n) = none :=
    List.find?_eq_none.2 fun r hr => Bool.eq_false_iff.1 (not_holds_of_clear upperRuns_ordered hruns hlo hhi hstep hr)
  unfold upperChar
  rw [hn, lookup_of_clear hspecial hlo hhi hstep, hfind]

/-- What is written for a character is upper case already. -/
theorem upperChar_of_mem {c d : Char} (h : d ∈ upperChar c) : upperChar d = [d] := by
  cases hs : upperSpecial.lookup c.toNat with
  | some codes =>
    rw [upperChar, hs] at h
    obtain ⟨n, hn, rfl⟩ := List.mem_map.1 h
    obtain ⟨before, after, hsplit, -⟩ := List.lookup_eq_some_iff.1 hs
    have he : (c.toNat, codes) ∈ upperSpecial := by
      rw [hsplit]
      exact List.mem_append_right _ List.mem_cons_self
    have hall := ((Bool.and_eq_true _ _).mp (List.all_eq_true.1 special_settled _ he)).2
    exact upperChar_of_settled (List.all_eq_true.1 hall n hn) (Nat.le_refl _) (Nat.le_refl _) (by rw [Nat.sub_self])
  | none =>
    cases hf : upperRuns.find? (·.holds c.toNat) with
    | none =>
      rw [upperChar, hs, hf] at h
      obtain rfl := List.mem_singleton.1 h
      rw [upperChar, hs, hf]
    | some r =>
      rw [upperChar, hs, hf] at h
      obtain rfl := List.mem_singleton.1 h
      have hr := List.all_eq_true.1 runs_settled r (List.mem_of_find?_eq_some hf)
      simp only [Bool.and_eq_true, decide_eq_true_eq, Nat.ble_eq] at hr
      obtain ⟨⟨-, hup⟩, hsettled⟩ := hr
      have hholds := List.find?_some hf
      simp only [CaseRun.holds, Bool.and_eq_true, decide_eq_true_eq, beq_iff_eq] at hholds
      obtain ⟨⟨hfirst, hlast⟩, hmod⟩ := hholds
      have hsub : r.upper c.toNat - r.upper r.first = c.toNat - r.first := by
        unfold CaseRun.upper
        omega
      refine upperChar_of_settled hsettled ?_ ?_ (by rw [hsub, hmod])
      · unfold CaseRun.upper
        omega
      · unfold CaseRun.upper
        omega

theorem upperChar_ne_nil (c : Char) : upperChar c ≠ [] := by
  unfold upperChar
  split
  · rename_i codes hs
    obtain ⟨before, after, hsplit, -⟩ := List.lookup_eq_some_iff.1 hs
    have he : (c.toNat, codes) ∈ upperSpecial := by
      rw [hsplit]
      exact List.mem_append_right _ List.mem_cons_self
    have hne := ((Bool.and_eq_true _ _).mp (List.all_eq_true.1 special_settled _ he)).1
    exact fun h => bne_iff_ne.1 hne (List.map_eq_nil_iff.1 h)
  · split <;> exact List.cons_ne_nil _ _

/-- An upper-cased text, and every part of one, stays as it is. -/
theorem strUpper_of_subset {s t : List Char} (h : ∀ c ∈ t, c ∈ strUpper s) : strUpper t = t := by
  have hid : ∀ c ∈ t, upperChar c = [c] := fun c hc => by
    obtain ⟨d, -, hd⟩ := List.mem_flatMap.1 (h c hc)
    exact upperChar_of_mem hd
  unfold strUpper
  rw [List.flatMap_congr hid, List.flatMap_singleton']

theorem length_le_strUpper (s : List Char) : s.length ≤ (strUpper s).length := by
  induction s with
  | nil => exact Nat.le_refl _
  | cons c s ih =>
    have hpos := List.length_pos_iff.2 (upperChar_ne_nil c)
    rw [strUpper, List.flatMap_cons, List.length_append, List.length_cons]
    exact Nat.add_comm _ _ ▸ Nat.add_le_add hpos ih

set_option maxRecDepth 4000 in
/-- A character of ASCII has the one upper case it has there. -/
theorem upperChar_ascii {c : Char} (h : c.toNat < 128) : upperChar c = [c.toUpper] := by
  have hupper : ∀ n ∈ List.range 128,
      (Char.ofNat n).toUpper = if 0x61 ≤ n ∧ n ≤ 0x7A then Char.ofNat (n - 32) else Char.ofNat n := by decide
  have hc := hupper c.toNat (List.mem_range.2 h)
  rw [Char.ofNat_toNat] at hc
  rw [hc]
  have others : ∀ lo hi, settled lo hi 1 = true → lo ≤ c.toNat → c.toNat ≤ hi → upperChar c = [c] := by
    intro lo hi hsettled hlo hhi
    have hself := upperChar_of_settled hsettled hlo hhi (Nat.mod_one _)
    rwa [Char.ofNat_toNat] at hself
  by_cases hlower : 0x61 ≤ c.toNat ∧ c.toNat ≤ 0x7A
  · have hspecial : clear specialRuns 0x61 0x7A 1 = true := by decide
    have hfind : upperRuns.find? (·.holds c.toNat) = some ⟨0x61, 0x7A, 1, -32⟩ :=
      List.find?_cons_of_pos (by simp [CaseRun.holds, hlower, Nat.mod_one])
    have hup : CaseRun.upper ⟨0x61, 0x7A, 1, -32⟩ c.toNat = c.toNat - 32 := by
      change ((c.toNat : Int) + -32).toNat = c.toNat - 32
      omega
    rw [if_pos hlower, upperChar, lookup_of_clear hspecial hlower.1 hlower.2 (Nat.mod_one _), hfind, ← hup]
  · rw [if_neg hlower]
    by_cases hlow : c.toNat ≤ 0x60
    · exact others 0 0x60 (by decide) (Nat.zero_le _) hlow
    · exact others 0x7B 0x7F (by decide) (by omega) (by omega)

theorem strUpper_ascii {s : List Char} (h : ∀ c ∈ s, c.toNat < 128) : strUpper s = s.map Char.toUpper := by
  unfold strUpper
  rw [List.flatMap_congr fun c hc => upperChar_ascii (h c hc), List.map_eq_flatMap]

end EmbyxManager.Core
