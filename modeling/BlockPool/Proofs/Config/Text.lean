import BlockPool.Config.Text
import BlockPool.Proofs.Toml.Document

/-!
# What a configuration keeps as TOML

Every configuration can be written and read back.  A fill byte that is not set
has no entry, and a missing entry is read as the default configuration has
it, so that only configurations with both fill bytes come back as they were.
-/

namespace BlockPool.Config

open Toml (Entries)

def entries (c : Config) : Entries :=
  c.settings.map fun setting => (setting.1, .scalar setting.2)

theorem fits_patternSetting (name : String) (pattern : Option UInt8) :
    ∀ setting ∈ patternSetting name pattern, setting.2.Fits := by
  cases pattern with
  | none => exact nofun
  | some byte =>
      intro setting member
      rw [List.mem_singleton.mp member]
      have small := byte.toNat_lt
      change -Toml.integerBound ≤ (byte.toNat : Int) ∧ (byte.toNat : Int) < Toml.integerBound
      rw [Toml.integerBound]
      omega

theorem fits_settings (c : Config) : ∀ setting ∈ c.settings, setting.2.Fits := by
  intro setting member
  simp only [settings, List.mem_append] at member
  rcases member with (plain | alloc) | dealloc
  · simp only [List.mem_cons, List.not_mem_nil, or_false] at plain
    rcases plain with rfl | rfl | rfl <;> trivial
  · exact fits_patternSetting _ _ setting alloc
  · exact fits_patternSetting _ _ setting dealloc

theorem nodup_settings (c : Config) : (c.settings.map Prod.fst).Nodup := by
  obtain ⟨_, _, _, alloc, dealloc⟩ := c
  cases alloc <;> cases dealloc <;> simp [settings, patternSetting]

theorem parse_toml (c : Config) : Toml.parse c.toml = some c.entries :=
  Toml.parse_settingLines c.fits_settings c.nodup_settings

theorem pattern?_byte (byte : UInt8) :
    pattern? (.scalar (.integer byte.toNat)) = some (some byte) := by
  have small := byte.toNat_lt
  have inside : (0 : Int) ≤ byte.toNat ∧ (byte.toNat : Int) < 256 := by omega
  rw [pattern?, if_pos inside, Int.toNat_natCast, UInt8.ofNat_toNat]

theorem coalescing_ofName?_name (policy : Coalescing) :
    Coalescing.ofName? policy.name = some policy := by
  cases policy <;> rfl

def patternValue (byte : UInt8) : Toml.Value := .scalar (.integer byte.toNat)

theorem field?_pattern (standard pattern : Option UInt8) :
    field? standard pattern? (pattern.map patternValue) =
      some (pattern.or standard) := by
  cases pattern with
  | none => rfl
  | some byte =>
      rw [Option.map_some, patternValue, field?, pattern?_byte]
      rfl

theorem get?_entries (c : Config) :
    c.entries.get? "coalesce" = some (.scalar (.string c.coalesce.name)) ∧
      c.entries.get? "record_empty_remainder" =
        some (.scalar (.boolean c.recordEmptyRemainder)) ∧
      c.entries.get? "track_stats" = some (.scalar (.boolean c.trackStats)) ∧
      c.entries.get? "alloc_pattern" = c.allocPattern.map patternValue ∧
      c.entries.get? "dealloc_pattern" = c.deallocPattern.map patternValue := by
  obtain ⟨coalesce, keepEmpty, trackStats, alloc, dealloc⟩ := c
  cases alloc <;> cases dealloc <;> exact ⟨rfl, rfl, rfl, rfl, rfl⟩

def withPatterns (c : Config) : Config :=
  { c with
    allocPattern := c.allocPattern.or Config.default.allocPattern
    deallocPattern := c.deallocPattern.or Config.default.deallocPattern }

theorem ofEntries?_entries (c : Config) : ofEntries? c.entries = some c.withPatterns := by
  obtain ⟨coalesce, keepEmpty, trackStats, alloc, dealloc⟩ := c.get?_entries
  simp only [ofEntries?, ofFields?, fieldName, coalesce, keepEmpty, trackStats, alloc,
    dealloc, field?_pattern]
  simp only [field?, Coalescing.ofValue?, coalescing_ofName?_name, boolean?]
  rfl

theorem ofToml?_toml (c : Config) : ofToml? c.toml = some c.withPatterns := by
  rw [ofToml?, parse_toml, Option.bind_some, ofEntries?_entries]

theorem withPatterns_eq_iff (c : Config) :
    c.withPatterns = c ↔ c.allocPattern ≠ none ∧ c.deallocPattern ≠ none := by
  obtain ⟨_, _, _, alloc, dealloc⟩ := c
  cases alloc <;> cases dealloc <;> simp [withPatterns, Config.default, debug]

/-- Only a fill byte that is the standard one of the other kind does harm. -/
theorem validate_withPatterns_iff (c : Config) :
    c.validate = .ok () ∧ c.withPatterns.validate ≠ .ok () ↔
      c.allocPattern = none ∧ c.deallocPattern = some 0xBB ∨
        c.allocPattern = some 0xDD ∧ c.deallocPattern = none := by
  obtain ⟨_, _, _, alloc, dealloc⟩ := c
  rw [Ne, validate_eq_ok_iff, validate_eq_ok_iff]
  cases alloc <;> cases dealloc <;> simp [withPatterns, Config.default, debug, eq_comm]

theorem toml_keeps_iff (c : Config) :
    ofToml? c.toml = some c.withPatterns ∧
      (ofToml? c.toml = some c ↔ c.allocPattern ≠ none ∧ c.deallocPattern ≠ none) ∧
      (c.validate = .ok () ∧ c.withPatterns.validate ≠ .ok () ↔
        c.allocPattern = none ∧ c.deallocPattern = some 0xBB ∨
          c.allocPattern = some 0xDD ∧ c.deallocPattern = none) := by
  refine ⟨c.ofToml?_toml, ?_, c.validate_withPatterns_iff⟩
  rw [ofToml?_toml, Option.some.injEq]
  exact c.withPatterns_eq_iff

/-- A configuration without fill bytes does not come back. -/
theorem reference_toml_ne : ofToml? reference.toml ≠ some reference ∧
    (validate ⟨.forward, true, true, none, some 0xBB⟩ = .ok () ∧
      (ofToml? (toml ⟨.forward, true, true, none, some 0xBB⟩)).map validate =
        some (.error .equalPatterns)) := by
  rw [ofToml?_toml, ofToml?_toml]
  exact ⟨by decide, rfl, rfl⟩

end BlockPool.Config
