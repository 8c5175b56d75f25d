import Automata.Automaton.Drawing
import Automata.Automaton.Listing
import Automata.Automaton.Outline
import Automata.Proofs.Automaton.Rearrangement
import Automata.Proofs.Binary.Idle
import Automata.Proofs.Binary.RoundTrip
import Automata.Proofs.Conversion.Order
import Automata.Proofs.Conversion.Shape
import Automata.Proofs.Pattern.Engine
import Automata.Proofs.Run.LeastClosed
import Automata.Proofs.Run.Monotone
import Automata.Proofs.Session.Extensional
import Automata.Proofs.TransitionList.Leniency
import Automata.Proofs.TransitionList.Reordering
import Automata.Proofs.TransitionList.Rewriting
import Automata.TransitionList.File
import Automata.Proofs.Conversion.Rebuilding
import Automata.Proofs.Run.Visited
import Automata.Proofs.TransitionList.Saving
import Automata.Proofs.Binary.Stray
import Automata.Proofs.Drawing.Faithful
import Automata.Proofs.Session.Listing
import Automata.Proofs.Pattern.Wrapping
import Automata.Proofs.Conversion.Bound
import Automata.Proofs.Binary.Reordering
