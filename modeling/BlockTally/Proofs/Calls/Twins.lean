import BlockTally.Proofs.Program.Twins

/-! Tours of programs with the same reachable part.

The call graphs have different nodes, but ids that are come to from the entry points stand for paired functions in both
or for none in either. So the tours visit paired functions, and end at the same id.
-/

set_option autoImplicit false

namespace BlockTally

namespace Calls

variable {calls calls' : Calls} {R : FuncRef → FuncRef → Prop} {reached : Value → Prop}

structure NodesAlike (R : FuncRef → FuncRef → Prop) (reached : Value → Prop) (node node' : CallNode) : Prop where
  function : R node.function node'.function
  callees : node'.callees = node.callees
  reached : ∀ called ∈ node.callees, reached called

theorem rel_cases {α β : Type} {S : α → β → Prop} {first : Option α} {second : Option β}
    (related : Option.Rel S first second) :
    (first = none ∧ second = none) ∨ ∃ a b, first = some a ∧ second = some b ∧ S a b := by
  cases related with
  | none => exact .inl ⟨rfl, rfl⟩
  | some here => exact .inr ⟨_, _, rfl, rfl, here⟩

/-- Tours with the same ids before them go on alike, as many steps as either may have to spare. -/
theorem tourFrom_alike (nodes : ∀ id, reached id →
      Option.Rel (NodesAlike R reached) (calls.nodes.get? id) (calls'.nodes.get? id)) {steps steps' : Nat}
    {done waiting : List Value} (enough : calls.Suffices steps done) (enough' : calls'.Suffices steps' done)
    (waits : ∀ id ∈ waiting, reached id) :
    List.Forall₂ R (calls.tourFrom steps done waiting).visited (calls'.tourFrom steps' done waiting).visited ∧
      (calls'.tourFrom steps' done waiting).missing = (calls.tourFrom steps done waiting).missing := by
  -- By induction on the steps of the first tour; the second one has its own.
  induction steps using Nat.strongRecOn generalizing steps' done waiting with
  | _ steps ih =>
    cases next : waiting.dropWhile (· ∈ done) with
    | nil =>
      rw [tourFrom_end calls steps next, tourFrom_end calls' steps' next]
      exact ⟨.nil, rfl⟩
    | cons id rest =>
      obtain ⟨-, front, split, -⟩ := dropWhile_next next
      rw [split] at waits
      rcases rel_cases (nodes id (waits id (List.mem_append_right _ (List.mem_cons_self ..)))) with
        ⟨found, found'⟩ | ⟨node, node', found, found', alike⟩
      · rw [tourFrom_stop steps next found, tourFrom_stop steps' next found']
        exact ⟨.nil, rfl⟩
      · obtain ⟨left, fewer, after, tour⟩ := enough.tourFrom_visit next found
        obtain ⟨left', -, after', tour'⟩ := enough'.tourFrom_visit next found'
        have later : ∀ other ∈ rest ++ node.callees, reached other := List.forall_mem_append.mpr
          ⟨fun other member => waits other (List.mem_append_right _ (List.mem_cons_of_mem _ member)), alike.reached⟩
        rw [alike.callees] at tour'
        obtain ⟨visited, missing⟩ := ih left fewer after after' later
        rw [tour, tour']
        exact ⟨.cons alike.function visited, missing⟩

end Calls

namespace Program

variable {p q : Program}

/-- Nothing keeps the graph from being built. -/
theorem Tidy.graph (h : p.Tidy) : ∃ calls, Calls.ofProgram p = .ok calls :=
  CallsFilled.graph h.calls

def Leads (p : Program) (id : Value) : Prop :=
  ∀ f, p.Names id f → p.Reachable f

theorem leads_start {r : InstRef} {id : Value} (entry : r ∈ p.module.entryPoints)
    (value : (p.inst r).value 1 = .ok id) : p.Leads id :=
  fun _ named => .entry entry value named

theorem leads_callees {f : FuncRef} {ids : List Value} (reached : p.Reachable f) (read : p.callees f = .ok ids)
    {id : Value} (member : id ∈ ids) : p.Leads id := by
  obtain ⟨r, inside, call, value⟩ := (mem_callees read).mp member
  exact fun _ named => .call reached inside call value named

section Tours

variable {tour tour' : Tour} (toured : p.entryTour = .ok tour) (toured' : q.entryTour = .ok tour')
  (whole : tour.missing = none) (whole' : tour'.missing = none)
include toured toured' whole whole'

theorem exists_reachable_of_tours (same : tour'.visited.map q.contents = tour.visited.map p.contents) {f : FuncRef}
    (reached : p.Reachable f) : ∃ g, q.Reachable g ∧ q.contents g = p.contents f := by
  have among := List.mem_map_of_mem (f := p.contents) ((mem_visited_iff toured whole).mpr reached)
  obtain ⟨g, visited, same⟩ := List.mem_map.mp (same ▸ among)
  exact ⟨g, (mem_visited_iff toured' whole').mp visited, same⟩

/-- Tours that meet no missing function show what is reached, so going through them tells whether it is the same. -/
theorem sameReach_of_tours (same : tour'.visited.map q.contents = tour.visited.map p.contents) : p.SameReach q :=
  ⟨fun _ => exists_reachable_of_tours toured toured' whole whole' same,
   fun _ => exists_reachable_of_tours toured' toured whole' whole same.symm⟩

end Tours

section Twins

variable {calls calls' : Calls}

/-- An id that leads to a function in one of the programs does so in the other one. -/
theorem SameReach.known (reach : p.SameReach q) (described : Calls.Describes p calls p.module.functions)
    (described' : Calls.Describes q calls' q.module.functions) {id : Value} (leads : p.Leads id) {node : CallNode}
    (found : calls.nodes.get? id = some node) : ∃ node', calls'.nodes.get? id = some node' := by
  have named := described.names found
  obtain ⟨g, reached, same⟩ := reach.there _ (leads _ named)
  obtain ⟨-, -, -, key, -⟩ := named
  have key' : q.functionKey g = id := (congrArg Value.int (functionId_of_contents same)).trans key
  exact Option.isSome_iff_exists.mp (key' ▸ described'.known g reached.mem)

/-- The graphs have alike nodes for what is come to, or none. -/
theorem twins_nodes (first : p.Tidy) (second : q.Tidy) (globals : p.SameGlobals q) (reach : p.SameReach q)
    (described : Calls.Describes p calls p.module.functions) (described' : Calls.Describes q calls' q.module.functions)
    (id : Value) (leads : p.Leads id ∧ q.Leads id) :
    Option.Rel (Calls.NodesAlike (twins first second).functions fun id => p.Leads id ∧ q.Leads id)
      (calls.nodes.get? id) (calls'.nodes.get? id) := by
  cases found : calls.nodes.get? id with
  -- A node in one graph only would be of a function that the other module reaches, too.
  | none =>
    cases found' : calls'.nodes.get? id with
    | none => exact .none
    | some node' =>
      obtain ⟨node, known⟩ := reach.symm.known described' described leads.2 found'
      cases found.symm.trans known
  | some node =>
    obtain ⟨node', found'⟩ := reach.known described described' leads.1 found
    rw [found']
    have named := described.names found
    have named' := described'.names found'
    have reached := leads.1 _ named
    have reached' := leads.2 _ named'
    obtain ⟨-, -, -, key, -⟩ := named
    obtain ⟨-, -, -, key', -⟩ := named'
    have paired : (twins first second).functions node.function node'.function :=
      ⟨reached, reached', Value.int.inj (key'.trans key.symm)⟩
    obtain ⟨ids, read, same⟩ := described.callees id node found
    obtain ⟨ids', read', same'⟩ := described'.callees id node' found'
    have callees := (alike_twins first second globals reach).callees paired
    obtain rfl : ids' = ids := Except.ok.inj (read'.symm.trans (callees.trans read))
    refine .some ⟨paired, same'.trans same.symm, fun called member => ?_⟩
    rw [same, List.mem_eraseDups] at member
    exact ⟨leads_callees reached read member, leads_callees reached' read' member⟩

structure ToursAlike (ρ : Pairing) (tour tour' : Tour) : Prop where
  visited : List.Forall₂ ρ.functions tour.visited tour'.visited
  missing : tour'.missing = tour.missing

/-- Neither the order of the functions nor those that are not reached have a part in the tour. -/
theorem twins_tours (first : p.Tidy) (second : q.Tidy) (globals : p.SameGlobals q) (reach : p.SameReach q) :
    Corresponds (ToursAlike (twins first second)) p.entryTour q.entryTour := by
  have entries := (alike_twins first second globals reach).entryIds
  obtain ⟨calls, graph⟩ := first.graph
  obtain ⟨calls', graph'⟩ := second.graph
  unfold entryTour tourFrom
  rw [entries, graph, graph']
  cases read : p.entryIds with
  | error e => exact .error e
  | ok roots =>
    have leads : ∀ id ∈ roots, p.Leads id ∧ q.Leads id := by
      intro id root
      obtain ⟨r, entry, value⟩ := (except_mem_mapM_ok read).mp root
      obtain ⟨s, entry', value'⟩ := (except_mem_mapM_ok (entries.trans read)).mp root
      exact ⟨leads_start entry value, leads_start entry' value'⟩
    have nodes := twins_nodes first second globals reach (Calls.ofProgram_describes graph)
      (Calls.ofProgram_describes graph')
    obtain ⟨visited, missing⟩ := Calls.tourFrom_alike nodes (.start calls) (.start calls') leads
    exact .ok ⟨visited, missing⟩

end Twins

end Program

end BlockTally
