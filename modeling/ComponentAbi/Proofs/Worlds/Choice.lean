import ComponentAbi.FunctionChoice
import ComponentAbi.Proofs.Worlds.Expansion

/-!
# Choosing among the functions of a world

Where several functions are wanted, the choice fails and lists them as candidates, each as its
module and its name. The text of a candidate, given back, selects its function exactly if the
function has a module and no rival (`Project.selects_listed_iff`). A rival is another function that
goes by the same text, such as the one that the module has in the other direction
(`WorldFunction.Rivals`); if number signs are not in the names of functions, there is no other kind
(`WorldFunction.rivals_iff_of_plain`). A function of the world itself is listed with an invented
module, and its candidate does not select it (`Project.candidates_unusable`).
-/

namespace ComponentAbi

namespace WorldFunction

variable {f g : WorldFunction} {functions : List WorldFunction} {wanted module : String}

/-- The first function also goes by the text that is printed for the second one, of a module. -/
inductive Rivals : WorldFunction → WorldFunction → Prop
  /-- The module has a function of the name in the other direction. -/
  | direction {f g : WorldFunction} (hmodule : g.module = f.module) (hname : g.name = f.name)
    (h : g.direction ≠ f.direction) : Rivals g f
  /-- The name alone is written like the module and the name. -/
  | name {f g : WorldFunction} {module : String} (hmodule : f.module = some module)
    (h : g.name = f.qualifiedName module) : Rivals g f
  /-- Another module and name are written alike, with the number sign between them elsewhere. -/
  | text {f g : WorldFunction} {module module' : String} (hmodule : f.module = some module)
    (hmodule' : g.module = some module') (hne : module' ≠ module)
    (h : g.qualifiedName module' = f.qualifiedName module) : Rivals g f

/-! ### Texts -/

theorem isWanted_iff : f.isWanted wanted ↔
    f.name = wanted ∨ ∃ module, f.module = some module ∧ f.qualifiedName module = wanted := by
  simp [isWanted, Option.any_eq_true]

theorem name_ne_qualifiedName : f.name ≠ f.qualifiedName module := by
  intro h
  have hlength := congrArg String.length h
  simp [qualifiedName] at hlength

/-- A function goes by the text that is printed for it if it has a module. -/
theorem isWanted_candidateName : f.isWanted f.candidateName ↔ f.module ≠ none := by
  rw [isWanted_iff, candidateName]
  cases hmodule : f.module with
  | none => simp [name_ne_qualifiedName]
  | some module => simp

/-- The other functions that go by the text that is printed for one are its rivals. -/
theorem rivals_iff (hmodule : f.module = some module) (hentry : g.sameEntry f → g = f) :
    g.Rivals f ↔ g.isWanted f.candidateName ∧ g ≠ f := by
  have htext : f.candidateName = f.qualifiedName module := by
    rw [candidateName, hmodule, Option.getD_some]
  rw [htext, isWanted_iff]
  constructor
  · rintro (⟨hsame, hname, h⟩ | ⟨hmodule', h⟩ | ⟨hmodule', hother, hne, h⟩)
    · refine ⟨.inr ⟨module, hsame.trans hmodule, ?_⟩, ?_⟩
      · rw [qualifiedName, qualifiedName, hname]
      · rintro rfl
        exact h rfl
    · cases hmodule.symm.trans hmodule'
      refine ⟨.inl h, ?_⟩
      rintro rfl
      exact name_ne_qualifiedName h
    · cases hmodule.symm.trans hmodule'
      refine ⟨.inr ⟨_, hother, h⟩, ?_⟩
      rintro rfl
      exact hne (Option.some.inj (hother.symm.trans hmodule))
  · rintro ⟨h | ⟨module', hmodule', h⟩, hne⟩
    · exact .name hmodule h
    · by_cases hsame : module' = module
      · subst hsame
        have hname : g.name = f.name := by
          simpa [qualifiedName, ← String.toList_inj] using h
        refine .direction (hmodule'.trans hmodule.symm) hname fun hdirection => hne (hentry ?_)
        exact sameEntry_iff.2 ⟨hdirection, hmodule'.trans hmodule.symm, hname⟩
      · exact .text hmodule hmodule' hsame h

/-- If number signs are not in the names of functions, only the function of the other direction is a
rival. -/
theorem rivals_iff_of_plain (hf : '#' ∉ f.name.toList) (hg : '#' ∉ g.name.toList) :
    g.Rivals f ↔ g.module = f.module ∧ g.name = f.name ∧ g.direction ≠ f.direction := by
  have hcut {f : WorldFunction} (h : '#' ∉ f.name.toList) (module : String) :
      Text.cutLast '#' (f.qualifiedName module) = some (module, f.name) :=
    Text.cutLast_of_toList (by simp [qualifiedName]) h
  constructor
  · rintro (⟨hmodule, hname, h⟩ | ⟨-, h⟩ | @⟨_, _, module, module', -, -, hne, h⟩)
    · exact ⟨hmodule, hname, h⟩
    · rw [h] at hg
      exact absurd (by simp [qualifiedName]) hg
    · have hparts := hcut hg module'
      rw [h, hcut hf] at hparts
      exact absurd (congrArg Prod.fst (Option.some.inj hparts)).symm hne
  · rintro ⟨hmodule, hname, h⟩
    exact .direction hmodule hname h

/-! ### Choices -/

theorem choose_eq_ok_iff_filter : choose functions wanted = .ok f ↔
    functions.filter (·.isWanted wanted) = [f] := by
  rw [choose]
  generalize functions.filter (·.isWanted wanted) = matching
  rcases matching with _ | ⟨first, _ | ⟨second, rest⟩⟩ <;> simp

/-- The choice fails with candidates exactly if several functions are wanted, and lists these. -/
theorem choose_eq_ambiguous_iff {texts : List String} :
    choose functions wanted = .error (.ambiguous wanted texts) ↔
      2 ≤ (functions.filter (·.isWanted wanted)).length ∧
        texts = (functions.filter (·.isWanted wanted)).map candidateName := by
  rw [choose]
  generalize functions.filter (·.isWanted wanted) = matching
  rcases matching with _ | ⟨first, _ | ⟨second, rest⟩⟩ <;> simp [eq_comm]

/-- Among different functions, one is chosen exactly if it is the only one that is wanted. -/
theorem choose_eq_ok (hnodup : functions.Nodup) : choose functions wanted = .ok f ↔
    f ∈ functions ∧ f.isWanted wanted ∧ ∀ g ∈ functions, g.isWanted wanted → g = f := by
  rw [choose_eq_ok_iff_filter]
  constructor
  · intro h
    have hmem {g : WorldFunction} : g ∈ functions ∧ g.isWanted wanted ↔ g = f := by
      rw [← List.mem_singleton (a := g), ← h, List.mem_filter]
    obtain ⟨hf, hwanted⟩ := hmem.2 rfl
    exact ⟨hf, hwanted, fun g hg hg' => hmem.1 ⟨hg, hg'⟩⟩
  · rintro ⟨hf, hwanted, hall⟩
    refine List.perm_singleton.1 ?_
    rw [List.perm_ext_iff_of_nodup (hnodup.filter _) (List.nodup_singleton f)]
    intro g
    rw [List.mem_filter, List.mem_singleton]
    constructor
    · exact fun h => hall g h.1 h.2
    · rintro rfl
      exact ⟨hf, hwanted⟩

theorem eq_of_sameEntry (h : functions.Pairwise fun f g => ¬f.sameEntry g) (hf : f ∈ functions)
    (hg : g ∈ functions) (hsame : g.sameEntry f) : g = f := by
  have hsymm : Std.Symm fun f g : WorldFunction => ¬f.sameEntry g := by
    refine ⟨fun f g hne hsame => hne ?_⟩
    obtain ⟨hdirection, hmodule, hname⟩ := sameEntry_iff.1 hsame
    exact sameEntry_iff.2 ⟨hdirection.symm, hmodule.symm, hname.symm⟩
  by_contra hne
  exact h.forall hg hf hne hsame

/-- Of functions with one entry each, the text that is printed for one selects it exactly if it has
a module and no rival. -/
theorem choose_candidateName (h : functions.Pairwise fun f g => ¬f.sameEntry g)
    (hf : f ∈ functions) : choose functions f.candidateName = .ok f ↔
      f.module ≠ none ∧ ∀ g ∈ functions, ¬g.Rivals f := by
  have hnodup : functions.Nodup := h.imp fun hne heq =>
    hne (sameEntry_iff.2 ⟨congrArg direction heq, congrArg WorldFunction.module heq,
      congrArg WorldFunction.name heq⟩)
  rw [choose_eq_ok hnodup, isWanted_candidateName]
  constructor
  · rintro ⟨-, hmodule, hall⟩
    obtain ⟨module, hsome⟩ := Option.ne_none_iff_exists'.1 hmodule
    refine ⟨hmodule, fun g hg hrivals => ?_⟩
    obtain ⟨hwanted, hne⟩ := (rivals_iff hsome (eq_of_sameEntry h hf hg)).1 hrivals
    exact hne (hall g hg hwanted)
  · rintro ⟨hmodule, hnone⟩
    obtain ⟨module, hsome⟩ := Option.ne_none_iff_exists'.1 hmodule
    refine ⟨hf, hmodule, fun g hg hwanted => ?_⟩
    by_contra hne
    exact hnone g hg ((rivals_iff hsome (eq_of_sameEntry h hf hg)).2 ⟨hwanted, hne⟩)

end WorldFunction

namespace Project

open WorldFunction

variable {p : Project} {reference wanted : String} {functions : List WorldFunction}
  {texts : List String}

/-- Where the functions of a world do not decide the choice, the texts that are printed are those of
the wanted ones, of which there are several, and such a text selects its function exactly if the
function has a module and no rival. -/
theorem selects_listed_iff (hfunctions : p.worldFunctions reference = .ok functions)
    (hchoice : choose functions wanted = .error (.ambiguous wanted texts)) :
    ∃ listed : List WorldFunction, texts = listed.map candidateName ∧ 2 ≤ listed.length ∧
      (∀ f, f ∈ listed ↔ f ∈ functions ∧ f.isWanted wanted) ∧
      ∀ f ∈ listed, choose functions f.candidateName = .ok f ↔
        f.module ≠ none ∧ ∀ g ∈ functions, ¬g.Rivals f := by
  obtain ⟨-, all, -, -, rfl⟩ := worldFunctions_eq_ok.1 hfunctions
  obtain ⟨hlength, htexts⟩ := choose_eq_ambiguous_iff.1 hchoice
  exact ⟨_, htexts, hlength, fun f => List.mem_filter, fun f hf =>
    choose_candidateName pairwise_distinct (List.mem_filter.1 hf).1⟩

/-- A world with functions of its own, called as is said, and with interfaces that all have a
function `now`. -/
def desk (own imported exported : List String) : Project :=
  let geo : PackageRef := { name := { namespaces := ["ns"], path := ["geo"] } }
  let interface (name : String) : String × Interface :=
    (name, { name, package := geo, definitions := {}, functions := [{ name := "now", func := ⟨0⟩ }],
             type := ⟨1⟩ })
  let item (name : String) : WorldItem := { name, kind := .interface geo name }
  let world : World :=
    { name := "desk", package := geo, definitions := {},
      imports := own.map (fun name => { name, kind := .function ⟨0⟩ }) ++ imported.map item,
      exports := exported.map item, includes := [], type := ⟨2⟩ }
  { arena := ⟨#[.function { params := [], results := [] }, .interface { package := geo },
      .world { package := geo, name := "desk" }]⟩
    store := ⟨[{ name := geo.name, versions := [(none,
      { worlds := ⟨[("desk", world)]⟩,
        definitions :=
          { interfaces := ⟨[interface "calendar", interface "clock"]⟩ } })] }]⟩ }

theorem selects_listed_iff_desk : ∃ functions,
    (desk [] ["clock"] ["calendar"]).worldFunctions "ns:geo/desk" = .ok functions ∧
      choose functions "now" =
        .error (.ambiguous "now" ["ns:geo/clock#now", "ns:geo/calendar#now"]) ∧
      functions.length = 2 ∧ ∀ f ∈ functions, choose functions f.candidateName = .ok f := by
  let entry (direction : Direction) (module : String) : WorldFunction :=
    { direction, module := some module, name := "now", func := ⟨0⟩ }
  let functions := [entry .imported "ns:geo/clock", entry .exported "ns:geo/calendar"]
  have hfunctions :
      (desk [] ["clock"] ["calendar"]).worldFunctions "ns:geo/desk" = .ok functions := rfl
  have hchoice : choose functions "now" =
      .error (.ambiguous "now" ["ns:geo/clock#now", "ns:geo/calendar#now"]) := rfl
  obtain ⟨listed, -, -, hlisted, hselects⟩ := selects_listed_iff hfunctions hchoice
  have hplain : ∀ f ∈ functions, f.isWanted "now" ∧ '#' ∉ f.name.toList ∧ f.module ≠ none := by
    simp [functions, entry, isWanted]
  have hapart : ∀ f ∈ functions, ∀ g ∈ functions,
      g.module = f.module → g.direction = f.direction := by
    simp [functions, entry]
  refine ⟨functions, hfunctions, hchoice, rfl, fun f hf => ?_⟩
  obtain ⟨hwanted, hname, hmodule⟩ := hplain f hf
  refine (hselects f ((hlisted f).2 ⟨hf, hwanted⟩)).2 ⟨hmodule, fun g hg hrivals => ?_⟩
  obtain ⟨hsame, -, hne⟩ := (rivals_iff_of_plain hname (hplain g hg).2.1).1 hrivals
  exact hne (hapart f hf g hg hsame)

/-- A world has a function of its own and an interface, which is imported and exported, with one of
the same name. No candidate selects its function: that of the first one is not found, and those of
the others are one text, which does not decide the choice either. -/
theorem candidates_unusable : ∃ functions,
    (desk ["now"] ["clock"] ["clock"]).worldFunctions "ns:geo/desk" = .ok functions ∧
      choose functions "now" =
        .error (.ambiguous "now" ["$root#now", "ns:geo/clock#now", "ns:geo/clock#now"]) ∧
      choose functions "$root#now" = .error (.notFound "$root#now") ∧
      choose functions "ns:geo/clock#now" =
        .error (.ambiguous "ns:geo/clock#now" ["ns:geo/clock#now", "ns:geo/clock#now"]) ∧
      ∀ f ∈ functions, f.isWanted "now" ∧ choose functions f.candidateName ≠ .ok f := by
  let entry (direction : Direction) (module : Option String) : WorldFunction :=
    { direction, module, name := "now", func := ⟨0⟩ }
  have hfunctions : (desk ["now"] ["clock"] ["clock"]).worldFunctions "ns:geo/desk" = .ok
      [entry .imported none, entry .imported (some "ns:geo/clock"),
        entry .exported (some "ns:geo/clock")] := rfl
  exact ⟨_, hfunctions, rfl, rfl, rfl, by decide⟩

end Project

end ComponentAbi
