import ComponentAbi.Proofs.Names.Distinct
import Mathlib.Data.Set.Function

/-!
# References read back

Reading a reference cuts its text at five separators: the version starts after the first `@`, the
path after the last `:` before it, and in the version build metadata starts at the first `+` and the
pre-release at the first `-` before that. All of them but the first may stand in what comes later,
as in `a:b:c/d@1.2.3-x-@y+z+w`. Writing puts the same separators back, and leaves out those with
nothing after them.

* `PackageRef.parse_toText_iff` : exactly the legible references are read back from their written
  form;
* `PackageRef.toText_parsed` : whatever is read is legible, so it is read back from its written
  form, and no two references that were read are written alike.
-/

namespace ComponentAbi

namespace PackageRef

variable {r r' : PackageRef} {s : String}

/-- The separators in the written form of the reference are all where reading looks for them. -/
structure Legible (r : PackageRef) : Prop where
  /-- The segments of the name are not empty, and have no separator of names in them. -/
  name : r.name.Readable
  /-- The name does not have the mark of a version in it, and the pre-release not that of build
  metadata. -/
  plain : r.Plain

theorem legible_of_parse (h : parse s = .ok r) : r.Legible := by
  obtain ⟨⟨text, hname, -⟩, -⟩ := exists_texts_of_parse h
  exact ⟨PackageName.readable_of_parse hname, plain_of_parse h⟩

theorem Legible.parse_toText (h : r.Legible) : parse r.toText = .ok r := by
  obtain ⟨name, version⟩ := r
  have hat : '@' ∉ name.toText.toList := h.plain.name.at_notMem
  cases version with
  | none => exact parse_toText_name h.name hat
  | some v =>
    have hversion : Version.parse v.toText = .ok v := Version.parse_toText (h.plain.version v rfl)
    exact parse_written h.name hat hversion

/-- Exactly the legible references are read back from their written form. -/
theorem parse_toText_iff : parse r.toText = .ok r ↔ r.Legible :=
  ⟨legible_of_parse, Legible.parse_toText⟩

/-- A reference that was read is read back from its written form, with all its parts. So references
that were read are told apart by their written forms. -/
theorem toText_parsed :
    (∀ s r, parse s = .ok r → parse r.toText = .ok r) ∧
      Set.InjOn toText {r | ∃ s, parse s = .ok r} := by
  refine ⟨fun s r h => (legible_of_parse h).parse_toText, ?_⟩
  rintro r ⟨s, hs⟩ r' ⟨s', hs'⟩ htext
  exact eq_of_toText_eq (plain_of_parse hs) (plain_of_parse hs') htext

/-- Leading zeros and a separator with nothing after it are not written again, but what is read from
the written form is the same. -/
theorem toText_parsed_separators : ∃ r, parse "a:b:c/d@01.002.3-+p+q-r:s/t@u" = .ok r ∧
    r.toText = "a:b:c/d@1.2.3+p+q-r:s/t@u" ∧ parse r.toText = .ok r := by
  obtain ⟨r, hr⟩ : ∃ r, parse "a:b:c/d@01.002.3-+p+q-r:s/t@u" = .ok r := ⟨_, rfl⟩
  have htext : r.toText = "a:b:c/d@1.2.3+p+q-r:s/t@u" := by
    cases hr
    rfl
  exact ⟨r, hr, htext, toText_parsed.1 _ r hr⟩

end PackageRef

end ComponentAbi
