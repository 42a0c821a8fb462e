import Brewhouse.Console.Basic

/-!
Writing on a link without faults. A link may take only a part of what it is offered; as long as it takes
something of every offer, a line arrives whole, whatever the parts are.
-/

namespace Brewhouse

/-- No write and no flush fails, every write takes something, and `Wrote` tells what was taken between two
states of the link. -/
structure Link.Delivers {σ : Type} [Link σ] (Wrote : σ → List UInt8 → σ → Prop) : Prop where
  nothing (l : σ) : Wrote l [] l
  append {l l' l'' : σ} {first second : List UInt8} (h : Wrote l first l') (h' : Wrote l' second l'') :
    Wrote l (first ++ second) l''
  write (data : List UInt8) (l : σ) (hdata : data ≠ []) : ∃ taken l',
    Link.write data l = (.ok taken, l') ∧ 0 < taken ∧ Wrote l (data.take taken) l'
  flush (l : σ) : ∃ l', Link.flush l = (.ok (), l') ∧ Wrote l [] l'

namespace Link.Delivers

variable {σ : Type} [Link σ] {Wrote : σ → List UInt8 → σ → Prop}

theorem writeAll (h : Delivers Wrote) (data : List UInt8) (l : σ) :
    ∃ l', Link.writeAll data l = (.ok (), l') ∧ Wrote l data l' := by
  induction data, l using Link.writeAll.induct with
  | case1 data l hempty =>
      rw [List.isEmpty_iff] at hempty
      subst hempty
      exact ⟨l, by rw [Link.writeAll]; rfl, h.nothing l⟩
  | case2 data l hsome fault l' hwrite =>
      obtain ⟨taken, l'', hok, -⟩ := h.write data l (by simpa using hsome)
      rw [hwrite] at hok
      cases hok
  | case3 data l hsome l' hwrite =>
      obtain ⟨taken, l'', hok, hpos, -⟩ := h.write data l (by simpa using hsome)
      rw [hwrite] at hok
      cases hok
      exact absurd hpos (Nat.lt_irrefl 0)
  | case4 data l hsome taken l' hwrite ih =>
      obtain ⟨taken', l₁, hok, -, hfirst⟩ := h.write data l (by simpa using hsome)
      rw [hwrite] at hok
      cases hok
      obtain ⟨l₂, hrest, hsecond⟩ := ih
      have hboth := h.append hfirst hsecond
      rw [List.take_append_drop] at hboth
      refine ⟨l₂, ?_, hboth⟩
      rw [Link.writeAll, if_neg hsome, hwrite]
      exact hrest

theorem writeLine (h : Delivers Wrote) (line : List UInt8) (l : σ) :
    ∃ l', Link.writeLine line l = (.ok (), l') ∧ Wrote l (line ++ Link.lineEnd) l' := by
  obtain ⟨l₁, hline, hfirst⟩ := h.writeAll line l
  obtain ⟨l₂, hend, hsecond⟩ := h.writeAll Link.lineEnd l₁
  obtain ⟨l₃, hflush, hthird⟩ := h.flush l₂
  have hall := h.append (h.append hfirst hsecond) hthird
  rw [List.append_nil] at hall
  refine ⟨l₃, ?_, hall⟩
  rw [Link.writeLine, hline]
  simp only [hend, hflush]

end Link.Delivers

/-- A link without faults, whose output is on record. How much a read brings and a write takes is up to
the link. -/
class FaultlessLink (σ : Type) extends Link σ where
  /-- What has been written so far. -/
  outgoing : σ → List UInt8
  read_spec (size : Nat) (l : σ) : ∃ bytes l', read size l = (.ok bytes, l') ∧
    outgoing l' = outgoing l
  write_spec (data : List UInt8) (l : σ) (hdata : data ≠ []) : ∃ taken l',
    write data l = (.ok taken, l') ∧ 0 < taken ∧ taken ≤ data.length ∧
      outgoing l' = outgoing l ++ data.take taken
  flush_spec (l : σ) : ∃ l', flush l = (.ok (), l') ∧ outgoing l' = outgoing l

namespace FaultlessLink

variable {σ : Type} [FaultlessLink σ]

theorem delivers : Link.Delivers fun (l : σ) bytes l' => outgoing l' = outgoing l ++ bytes where
  nothing l := (List.append_nil _).symm
  append h h' := by rw [h', h, List.append_assoc]
  write data l hdata := by
    obtain ⟨taken, l', hwrite, hpos, -, houtgoing⟩ := write_spec data l hdata
    exact ⟨taken, l', hwrite, hpos, houtgoing⟩
  flush l := by
    obtain ⟨l', hflush, houtgoing⟩ := flush_spec l
    exact ⟨l', hflush, houtgoing.trans (List.append_nil _).symm⟩

end FaultlessLink

end Brewhouse
