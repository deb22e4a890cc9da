/-!
# Rounds until nothing changes

The analyses of a grammar are least fixed points over a table with an entry for each nonterminal:
a round goes over the nonterminals in order and improves what it can, and rounds are repeated
until one changes nothing. An entry improved early in a round is already used later in it.
-/

namespace ContextFree.Analysis

variable {α : Type}

/-- Repeats a round until it changes nothing, `limit` times at the most. -/
def settle [BEq α] (round : α → α) : Nat → α → α
  | 0, table => table
  | limit + 1, table =>
    let next := round table
    if next == table then table else settle round limit next

/-- One round over the entries `0`, …, `count - 1` of a table. -/
def sweep (count : Nat) (improve : Array α → Nat → Array α) (table : Array α) : Array α :=
  (List.range count).foldl improve table

end ContextFree.Analysis
