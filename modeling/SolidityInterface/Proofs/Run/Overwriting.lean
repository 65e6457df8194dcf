import SolidityInterface.Proofs.Run.Outputs

/-
  Interfaces that are written over interfaces. The place of an interface is made of the
  directory for its file and the name of its contract, and of nothing else. So two files
  share a path just if they share both (`interfaces_collide_by_name_and_directory`), and
  nothing in a run stops it: `namesakes_are_written_to_one_path` is a run in which it
  happens.
-/

namespace SolidityInterface

open Session Plan

namespace World

/-! ## Two contracts of one name -/

namespace Namesakes

/-- Settings with one directory for all interfaces. -/
def options : Options :=
  { cwd := ⟨.slash, []⟩, modulesRoot := some ⟨.relative, ["modules"]⟩
    targetRoot := some ⟨.slash, ["out"]⟩, license := .text "MIT", rawOnly := false, logs := false }

/-- The file of a contract. -/
def left : Path := ⟨.slash, ["a", "T.sol"]⟩

/-- The file of another contract of the same name. -/
def right : Path := ⟨.slash, ["b", "T.sol"]⟩

/-- A disk with the two files. -/
def disk (p : Path) : Sighting :=
  if p = left then .text "pragma solidity 1;contract T\x7buint public x;\x7d"
  else if p = right then .text "pragma solidity 1;contract T\x7buint public y;\x7d"
  else .absent

/-- The moves of a run on both. -/
def moves : List Move :=
  [.ask 0, .ask 1, .start left, .start right, .look left, .look right, .receive left,
    .receive right, .write left, .write right, .resume 0, .resume 1]

end Namesakes

/-! ## The places of interfaces -/

variable {o : Options} {disk found : Path → Sighting} {paths : List Path} {w : World}
  {trace : List Move} {x y : Writing} {r : Record} {d : Draft}

/-- The name of the contract of a file that a run has loaded. -/
def contractAt? (w : World) (k : Path) : Option String := (w.recordAt? k).bind (·.name)

/-- The directory for the interface of a file, with the output root it got in the run. -/
def directoryAt? (w : World) (k : Path) : Option Path :=
  w.session.options.layout?.bind fun l => l.directory? k (w.session.rootOf k)

/-- The place of an interface that was written. -/
theorem placed_of_made (hs : Faithful o found w.session) (hm : Made o found w.session x r d) :
    ∃ n directory, w.contractAt? x.source = some n ∧ w.directoryAt? x.source = some directory ∧
      x.output = Layout.placed directory ("I" ++ n ++ ".sol") := by
  obtain ⟨n, l, directory, hn, -, hlayout, hdirectory, houtput, -⟩ := hm.drafted.placed
  refine ⟨n, directory, ?_, ?_, hm.output.trans houtput⟩
  · rw [contractAt?, recordAt?_eq_some.mpr hm.loaded, ← hm.seen_eq]
    exact hn
  · rw [directoryAt?, hs.options, hlayout]
    exact hdirectory

theorem interfaceName_inj {n n' : String} (h : "I" ++ n = "I" ++ n') : n = n' := by
  have hlist := congrArg String.toList h
  simp only [String.toList_append] at hlist
  exact String.toList_inj.mp (List.append_cancel_left hlist)

theorem fileName_inj {n n' : String} (h : "I" ++ n ++ ".sol" = "I" ++ n' ++ ".sol") : n = n' := by
  have hlist := congrArg String.toList h
  simp only [String.toList_append (t := ".sol")] at hlist
  exact interfaceName_inj (String.toList_inj.mp (List.append_cancel_right hlist))

/-! ## Interfaces over interfaces -/

/-- The interfaces of two files are written to one path just if the contracts have one
name and the files one directory for their interfaces. -/
theorem output_eq_iff (h : Run (start o disk paths) trace w) (hx : x ∈ w.writings)
    (hy : y ∈ w.writings) :
    x.output = y.output ↔ w.contractAt? x.source = w.contractAt? y.source ∧
      w.directoryAt? x.source = w.directoryAt? y.source := by
  obtain ⟨found, -, hs, hinformed⟩ := h.exists_grown
  obtain ⟨r, d, hm⟩ := h.exists_made hs.faithful hinformed hx
  obtain ⟨r', d', hm'⟩ := h.exists_made hs.faithful hinformed hy
  obtain ⟨n, directory, hcontract, hdirectory, houtput⟩ := placed_of_made hs.faithful hm
  obtain ⟨n', directory', hcontract', hdirectory', houtput'⟩ := placed_of_made hs.faithful hm'
  rw [houtput, houtput', Layout.placed_inj, hcontract, hcontract', hdirectory, hdirectory',
    Option.some.injEq, Option.some.injEq]
  constructor
  · rintro ⟨hd, hn⟩
    exact ⟨fileName_inj hn, hd⟩
  · rintro ⟨rfl, rfl⟩
    exact ⟨rfl, rfl⟩

/-- In every state of every run: each file is written once, and each path is written once
just if no two files whose contracts have the same name have the same directory for
their interfaces. -/
theorem interfaces_collide_by_name_and_directory (o : Options) (disk : Path → Sighting)
    (paths : List Path) (trace : List Move) (w : World)
    (hrun : Run (start o disk paths) trace w) :
    w.session.written = w.writings.map (·.output) ∧ (w.writings.map (·.source)).Nodup ∧
    (w.session.written.Nodup ↔
      ∀ x ∈ w.writings, ∀ y ∈ w.writings, x.source ≠ y.source →
        w.contractAt? x.source ≠ w.contractAt? y.source ∨
          w.directoryAt? x.source ≠ w.directoryAt? y.source) := by
  obtain ⟨hsources, -⟩ := hrun.writings_iff
  -- Interfaces are told apart by their sources, so only different sources can collide.
  have hinj : ∀ x ∈ w.writings, ∀ y ∈ w.writings, x.source = y.source → x = y :=
    (List.nodup_map_iff_inj_on hsources.of_map).mp hsources
  refine ⟨hrun.written_eq, hsources, ?_⟩
  rw [hrun.written_eq, List.nodup_map_iff_inj_on hsources.of_map]
  constructor
  · intro hdistinct x hx y hy hne
    by_contra hsame
    have hsame : w.contractAt? x.source = w.contractAt? y.source ∧
        w.directoryAt? x.source = w.directoryAt? y.source := by
      simpa [not_or, not_ne_iff] using hsame
    exact hne (congrArg Writing.source (hdistinct x hx y hy ((output_eq_iff hrun hx hy).mpr hsame)))
  · intro happart x hx y hy hxy
    obtain ⟨hcontract, hdirectory⟩ := (output_eq_iff hrun hx hy).mp hxy
    refine hinj x hx y hy ?_
    by_contra hne
    rcases happart x hx y hy hne with hc | hd
    · exact hc hcontract
    · exact hd hdirectory

/-- Two contracts of one name in two directories, and one directory for all interfaces: the
same path is written twice, and the interface of the first file is lost. -/
theorem namesakes_are_written_to_one_path :
    ∃ w as x y, Run (start Namesakes.options Namesakes.disk [Namesakes.left, Namesakes.right])
        Namesakes.moves w ∧ w.session.outcome? = some (.ok as) ∧
      w.writings = [x, y] ∧ x.source ≠ y.source ∧ x.text ≠ y.text ∧ x.output = y.output ∧
      w.session.written = [x.output, x.output] ∧ ¬ w.session.written.Nodup := by
  have hplay : ((start Namesakes.options Namesakes.disk [Namesakes.left, Namesakes.right]).play
      Namesakes.moves).any (fun w => (w.session.outcome?.any fun out => out.toOption.isSome) &&
        decide (∃ x ∈ w.writings, ∃ y ∈ w.writings, w.writings = [x, y] ∧ x.source ≠ y.source ∧
          x.text ≠ y.text ∧ x.output = y.output ∧ w.session.written = [x.output, x.output]))
        = true := by
    decide +kernel
  obtain ⟨w, as, hrun, hend, hcheck⟩ := exists_run_of_any hplay
  obtain ⟨x, -, y, -, hwritings, hsource, htext, houtput, hwritten⟩ := of_decide_eq_true hcheck
  exact ⟨w, as, x, y, hrun, hend, hwritings, hsource, htext, houtput, hwritten, by simp [hwritten]⟩

/-- Two contracts of different names in one directory: each path is written once. -/
theorem cycle_partners_are_written_apart :
    ∃ w, Run (start Pair.options Pair.disk [Pair.left]) (Pair.approach ++ Pair.rest) w ∧
      w.writings.map (·.source) = [Pair.right, Pair.left] ∧ w.session.written.Nodup := by
  have hplay : ((start Pair.options Pair.disk [Pair.left]).play (Pair.approach ++ Pair.rest)).any
      (fun w => decide (w.writings.map (·.source) = [Pair.right, Pair.left] ∧
        w.contractAt? Pair.left ≠ w.contractAt? Pair.right)) = true := by
    decide +kernel
  obtain ⟨w, hw, h⟩ := (Option.any_eq_true ..).mp hplay
  obtain ⟨hsources, hcontracts⟩ := of_decide_eq_true h
  obtain ⟨-, -, hnodup⟩ :=
    interfaces_collide_by_name_and_directory _ _ _ _ w (run_of_play hw)
  refine ⟨w, run_of_play hw, hsources, hnodup.mpr ?_⟩
  have hmem : ∀ x ∈ w.writings, x.source = Pair.right ∨ x.source = Pair.left := by
    intro x hx
    simpa [hsources] using List.mem_map_of_mem (f := Writing.source) hx
  intro x hx y hy hne
  left
  rcases hmem x hx with hx | hx <;> rcases hmem y hy with hy | hy <;> rw [hx, hy] at hne ⊢
  · exact absurd rfl hne
  · exact hcontracts.symm
  · exact hcontracts
  · exact absurd rfl hne

end World

end SolidityInterface
