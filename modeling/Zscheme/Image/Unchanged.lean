import Zscheme.Image.Kept

/-!
# What means the same in the image

What a procedure of the generic library is given must be the generic library's too
(`Generic`): a procedure among its arguments that mentions a name of a later layer means
something else in the image by itself. With such arguments, whatever a procedure returns
on its own it returns in the image (`Unchanged`), if its name is kept
(`unchanged_of_kept`), and also if it is `doc-cat`, which evaluates what it reads
(`unchanged_docCat`).
-/

namespace Zscheme

namespace Image

open Lambda Avatar

variable [Host] (M : Machine)

/-- What a procedure is given, in a heap, mentions only names that are kept; and so does
    the code `doc-cat` reads at a path. -/
structure Generic (p : String) (args heap : List Value) : Prop where
  clean_args : ∀ v ∈ args, v.Clean Kept Native.Tame
  clean_heap : ∀ v ∈ heap, v.Clean Kept Native.Tame
  clean_read : p = "doc-cat" → ∀ v path e, args = [v] → Value.text? v = some path →
    M.read (.atom (.str ("(" ++ path ++ ".content)"))) = some e → e.Within Kept []

/-- Whatever the procedure returns for generic arguments with the generic library alone,
    it returns in the image. -/
def Unchanged (p : String) : Prop :=
  ∀ args heap w v, Generic M p args heap →
    M.Returns M.alone p args heap w v → M.Returns M.combined p args heap w v

/-- A name that is kept is unchanged. -/
theorem unchanged_of_kept {p : String} (hp : Kept p) : Unchanged M p := by
  rintro args heap w v hgen ⟨f, hf, hreturns⟩
  have hclean : f.Clean Kept Native.Tame := alone_clean M p f hp hf
  refine ⟨f, by rw [combined_eq, if_neg hp.1, hf], ?_⟩
  have htask : (Task.apply f args).Clean Kept Native.Tame := ⟨hclean, hgen.clean_args⟩
  exact hreturns.same (interp_lawful M) htask (same_combined M hgen.clean_heap w)

/-! ## Reading a document -/

/-- What `doc-cat` is made of. -/
structure Globals.Reads (G : Globals) : Prop where
  eval : G "eval" = some (.native (.builtin .eval))
  append : G "string-append" = some (.native (.builtin .stringAppend))
  docCat : G "doc-cat" = Source.docCat.value G

omit [Host] in
theorem reads_alone : M.alone.Reads := ⟨rfl, rfl, rfl⟩

omit [Host] in
theorem reads_combined : M.combined.Reads := by
  have h : ∀ x ∈ ["eval", "string-append", "doc-cat"], x ∉ layerNames := by decide +kernel
  have hkeep {x} (hx : x ∈ ["eval", "string-append", "doc-cat"]) : M.combined x = M.alone x :=
    (combined_eq M x).trans (if_neg (h x hx))
  exact ⟨hkeep (by simp), hkeep (by simp), hkeep (by simp)⟩

section

-- The equations by which a run on given code is evaluated.
attribute [local simp] Run.end?_bind Interp.arguments? Closure.names Interp.read List.lookup_cons
  call

variable {M} {G : Globals} {f v : Value} {args heap : List Value} {w : World} {path : String}
  {e : Code} {r : Except String Value}

/-- `doc-cat` evaluates what is read at its path. -/
theorem docCat_ends (hG : G.Reads) (hf : G "doc-cat" = some f) (hv : v.text? = some path)
    (hread : M.read (Value.atom (.str ("(" ++ path ++ ".content)"))) = some e) :
    M.interp.Ends (.apply f [v]) ⟨G, heap, w⟩ r ↔
      M.interp.Ends (.eval [] e) ⟨G, heap ++ [v], w⟩ r := by
  obtain rfl := Option.some.inj (hf.symm.trans hG.docCat)
  refine Interp.ends_congr (k := 5) (j := 2) fun n => ?_
  simp [String.join, str, hG.eval, hG.append, hv, hread]

/-- `doc-cat` raises if there is nothing to read. -/
theorem docCat_raises (hG : G.Reads) (hf : G "doc-cat" = some f)
    (h : ∀ v path e, args = [v] → v.text? = some path →
      M.read (Value.atom (.str ("(" ++ path ++ ".content)"))) ≠ some e) :
    ∃ msg, M.interp.Ends (.apply f args) ⟨G, heap, w⟩ (.error msg) := by
  obtain rfl := Option.some.inj (hf.symm.trans hG.docCat)
  rcases args with _ | ⟨v, _ | ⟨u, args⟩⟩
  · exact ⟨_, 1, _, rfl⟩
  · rcases hv : v.text? with _ | path
    · refine ⟨M.refusal .stringAppend [.atom (.str "("), v, .atom (.str ".content)")], 5, ?_⟩
      simp [str, hG.eval, hG.append, hv]
    · have hread : M.read (.atom (.str ("(" ++ path ++ ".content)"))) = none :=
        Option.eq_none_iff_forall_ne_some.2 fun e => h v path e rfl hv
      refine ⟨M.refusal .eval [.atom (.str ("(" ++ path ++ ".content)"))], 5, ?_⟩
      simp [String.join, str, hG.eval, hG.append, hv, hread]
  · exact ⟨_, 1, _, rfl⟩

end

/-- `doc-cat` is unchanged: what it reads at a path means the same. -/
theorem unchanged_docCat : Unchanged M "doc-cat" := by
  rintro args heap w r hgen ⟨f, hf, hreturns⟩
  have hcombined : M.combined "doc-cat" = some f :=
    ((reads_combined M).docCat.trans (reads_alone M).docCat.symm).trans hf
  by_cases h : ∃ v path e, args = [v] ∧ v.text? = some path ∧
      M.read (.atom (.str ("(" ++ path ++ ".content)"))) = some e
  -- `doc-cat` is not kept itself; what it ends in is what the code it reads ends in
  · obtain ⟨v, path, e, rfl, hv, hread⟩ := h
    have hwithin : (Task.eval [] e : Task SchemeVal Label Native).Clean Kept Native.Tame :=
      hgen.clean_read rfl v path e rfl hv hread
    have hheap : ∀ u ∈ heap ++ [v], u.Clean Kept Native.Tame := by
      intro u hu
      exact (List.mem_append.1 hu).elim (hgen.clean_heap u) (hgen.clean_args u)
    have heval := (docCat_ends (reads_alone M) hf hv hread).1 hreturns
    refine ⟨f, hcombined, (docCat_ends (reads_combined M) hcombined hv hread).2 ?_⟩
    exact heval.same (interp_lawful M) hwithin (same_combined M hheap w)
  · obtain ⟨msg, hraises⟩ := docCat_raises (reads_alone M) hf
      fun v path e hargs hv hread => h ⟨v, path, e, hargs, hv, hread⟩
    exact absurd (hreturns.unique hraises) nofun

end Image

end Zscheme
