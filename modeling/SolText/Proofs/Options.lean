import Mathlib.Data.List.Nodup
import SolText.Options
import SolText.Proofs.Json.Canonical
import SolText.Proofs.Version

/-!
# Options in a configuration file

A configuration file may hold any of the settings, in any order. What it holds is read as it was
written, and what it leaves out has its default.

* `Options.members`, `Options.without`: the settings as they are written, and options without some of
  them.
* `Options.lookup_kept`: a setting is found unless it was left out.
* `Options.ofJson_without`: **options are read back from any of their settings**, with defaults for the
  others.
-/

namespace SolText.Options

open Json

/-! ### Settings -/

/-- The settings as they are written. -/
def members (options : Options) : Members :=
  [("indent", encodeIndent options.layout.indent),
    ("newline", .str options.layout.newline),
    ("terminator", ofOption (fun c : Char => .str c.toString) options.terminator),
    ("target", .str options.target.text)]

/-- The options with defaults in the place of the settings with the given names. -/
def without (options : Options) (omitted : List String) : Options where
  layout :=
    { indent := if "indent" ∈ omitted then .spaces 4 else options.layout.indent
      newline := if "newline" ∈ omitted then "\n" else options.layout.newline }
  terminator := if "terminator" ∈ omitted then some ';' else options.terminator
  target :=
    if "target" ∈ omitted then
      { major := 0, minor := 8, patch := 30, pre_valid := List.all_nil, build_valid := List.all_nil }
    else options.target

variable {options : Options} {omitted : List String} {kept : Members}

theorem map_fst_members (options : Options) : options.members.map Prod.fst = fieldNames := rfl

theorem nodup_map_fst_members (options : Options) : (options.members.map Prod.fst).Nodup := by
  rw [map_fst_members]
  decide

/-! ### Values -/

theorem decodeWidth_ofNat (width : UInt8) : decodeWidth (ofNat width.toNat) = .ok width := by
  have hlt : width.toNat < 256 := width.toNat_lt
  simp only [decodeWidth, asNat_ofNat, bind, Except.bind, if_pos hlt, UInt8.ofNat_toNat]
  rfl

theorem decodeIndent_encodeIndent (indent : Indent) : decodeIndent (encodeIndent indent) = .ok indent := by
  cases indent with
  | tabs => rfl
  | spaces width =>
    simp only [encodeIndent, decodeIndent, decodeWidth_ofNat]
    rfl

/-- No terminator is written as null, and is read as none. -/
theorem asOption_decodeChar (terminator : Option Char) :
    asOption decodeChar (ofOption (fun c : Char => .str c.toString) terminator) = .ok terminator := by
  cases terminator with
  | none => rfl
  | some c =>
    have hchar : decodeChar (.str c.toString) = .ok c := by
      simp [decodeChar, asString, bind, Except.bind, pure, Except.pure]
    simp only [ofOption, asOption, hchar]
    rfl

theorem decodeVersion_text (version : Version) : decodeVersion (.str version.text) = .ok version := by
  simp only [decodeVersion, asString, bind, Except.bind, Version.parse_text]
  rfl

/-! ### Files -/

section
variable (h : kept.Perm (options.members.filter fun field => field.1 ∉ omitted))
include h

theorem count_kept_le (name : String) : (kept.map Prod.fst).count name ≤ 1 := by
  rw [(h.map Prod.fst).count_eq]
  have hsublist : ((options.members.filter fun field => field.1 ∉ omitted).map Prod.fst).Sublist
      (options.members.map Prod.fst) := List.filter_sublist.map Prod.fst
  exact List.nodup_iff_count_le_one.1 ((nodup_map_fst_members options).sublist hsublist) name

/-- **A setting is found unless it was left out.** -/
theorem lookup_kept {name : String} {value : Json} (hfield : (name, value) ∈ options.members) :
    kept.lookup name = if name ∈ omitted then none else some value := by
  cases hlookup : kept.lookup name with
  | some found =>
    obtain ⟨before, after, rfl, -⟩ := List.lookup_eq_some_iff.1 hlookup
    have hmem := h.mem_iff.1 (List.mem_append_right before List.mem_cons_self)
    obtain ⟨hfound, hname⟩ := List.mem_filter.1 hmem
    -- the options have only one setting of this name
    have hinj := List.inj_on_of_nodup_map (nodup_map_fst_members options)
    cases hinj hfound hfield rfl
    rw [if_neg (by simpa using hname)]
  | none =>
    rw [if_pos]
    by_contra hname
    have hmem := h.mem_iff.2 (List.mem_filter.2 ⟨hfield, by simpa using hname⟩)
    have hne := List.lookup_eq_none_iff.1 hlookup _ hmem
    simp at hne

/-- A setting is read as it was written, or has its default. -/
theorem withDefault_kept {α : Type} {name : String} {value : Json} {item : Json → Except DecodeError α}
    {setting : α} (default : α) (hfield : (name, value) ∈ options.members)
    (hitem : item value = .ok setting) :
    kept.withDefault name default item = .ok (if name ∈ omitted then default else setting) := by
  unfold Members.withDefault
  rw [lookup_kept h hfield]
  by_cases hname : name ∈ omitted
  · rw [if_pos hname, if_pos hname]
  · rw [if_neg hname, if_neg hname]
    exact hitem

theorem ofJson_kept : ofJson (.obj kept) = .ok (options.without omitted) := by
  obtain ⟨hindent, hnewline, hterminator, htarget⟩ :
      ("indent", encodeIndent options.layout.indent) ∈ options.members ∧
        ("newline", .str options.layout.newline) ∈ options.members ∧
        ("terminator", ofOption (fun c : Char => .str c.toString) options.terminator) ∈
          options.members ∧
        ("target", .str options.target.text) ∈ options.members := by simp [members]
  have hstring : asString (.str options.layout.newline) = .ok options.layout.newline := rfl
  replace hindent := withDefault_kept h defaults.layout.indent hindent (decodeIndent_encodeIndent _)
  replace hnewline := withDefault_kept h defaults.layout.newline hnewline hstring
  replace hterminator := withDefault_kept h defaults.terminator hterminator (asOption_decodeChar _)
  replace htarget := withDefault_kept h defaults.target htarget (decodeVersion_text _)
  simp only [ofJson, Members.unrepeated_eq_ok fun name _ => count_kept_le h name, bind, Except.bind,
    hindent, hnewline, hterminator, htarget]
  rfl

end

/-- **Options are read back from any of their settings**, in any order, with defaults for those that
were left out. A terminator that was left out is not the same as none. -/
theorem ofJson_without (options : Options) :
    options.toJson = .obj options.members ∧ options.members.map Prod.fst = fieldNames ∧
      ofJson options.toJson = .ok options ∧
      (∀ omitted kept, kept.Perm (options.members.filter fun field => field.1 ∉ omitted) →
        ofJson (.obj kept) = .ok (options.without omitted)) ∧
      (options.terminator = none → ("terminator", .null) ∈ options.members ∧
        options.without ["terminator"] ≠ options) := by
  refine ⟨rfl, rfl, ?_, fun omitted kept h => ofJson_kept h, fun hnone => ⟨?_, fun he => ?_⟩⟩
  · have hfull : options.members.Perm (options.members.filter fun field => field.1 ∉ []) := by
      simp
    exact ofJson_kept hfull
  · simp [members, hnone, ofOption]
  · have hterminator := congrArg Options.terminator he
    rw [hnone] at hterminator
    cases hterminator

/-- No terminator and a version with hyphens in its identifiers, read backward, and the same without
the terminator and the version. -/
theorem ofJson_without_backward :
    ∃ options : Options, options = ⟨⟨.spaces 255, "\r\n"⟩, none,
        { major := 1, minor := 0, patch := 18446744073709551615, pre := ["rc-1", "0"],
          build := ["007", "x-y"] }⟩ ∧
      ofJson (.obj [("target", .str "1.0.18446744073709551615-rc-1.0+007.x-y"), ("terminator", .null),
        ("newline", .str "\r\n"), ("indent", .obj [("spaces", ofNat 255)])]) = .ok options ∧
      ofJson (.obj [("newline", .str "\r\n"), ("indent", .obj [("spaces", ofNat 255)])]) =
        .ok ⟨⟨.spaces 255, "\r\n"⟩, some ';', { major := 0, minor := 8, patch := 30 }⟩ := by
  obtain ⟨-, -, -, hread, -⟩ := ofJson_without ⟨⟨.spaces 255, "\r\n"⟩, none,
    { major := 1, minor := 0, patch := 18446744073709551615, pre := ["rc-1", "0"],
      build := ["007", "x-y"] }⟩
  have htext : (Version.mk 1 0 18446744073709551615 ["rc-1", "0"] ["007", "x-y"]).text =
      "1.0.18446744073709551615-rc-1.0+007.x-y" := by decide +kernel
  have hfull := hread [] _ (List.reverse_perm _)
  have hshort := hread ["terminator", "target"] _ (List.reverse_perm _)
  simp only [members, htext] at hfull hshort
  exact ⟨_, rfl, hfull, hshort⟩

end SolText.Options
