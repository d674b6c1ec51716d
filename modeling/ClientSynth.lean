import ClientSynth.Cache.Concurrent
import ClientSynth.Invocation.Interleaving
import ClientSynth.Invocation.Reading
import ClientSynth.Main
import ClientSynth.Proofs.Cache.Alone
import ClientSynth.Proofs.Cache.Sequential
import ClientSynth.Proofs.Cache.Serializable
import ClientSynth.Proofs.Invocation.Refinement
import ClientSynth.Proofs.Synthesis.FirstParameter
import ClientSynth.Proofs.Synthesis.Positions
import ClientSynth.Proofs.Synthesis.SourceNames
import ClientSynth.Proofs.Text.Trimming
import ClientSynth.Proofs.TypeExpr.Names
import ClientSynth.Proofs.TypeExpr.Pieces
import ClientSynth.Proofs.TypeExpr.Grammar
import ClientSynth.Proofs.TypeExpr.Printing
import ClientSynth.Proofs.Contract.RoundTrip
import ClientSynth.Proofs.Invocation.Inputs
import ClientSynth.Proofs.Route.Canonical
import ClientSynth.Proofs.Codec.RoundTrip
import ClientSynth.Proofs.Synthesis.Spelling
import ClientSynth.Proofs.Invocation.Concurrent
import ClientSynth.Proofs.Cache.Waiting
import ClientSynth.Proofs.Chain.Report
import ClientSynth.Proofs.Chain.InStep
import ClientSynth.Proofs.Synthesis.Frames
import ClientSynth.Proofs.Cache.Ending
import ClientSynth.Proofs.Codec.FirstFault
import ClientSynth.Proofs.Synthesis.LineBreaks
import ClientSynth.Proofs.Route.Substitution
import ClientSynth.Proofs.Route.Alignment
import ClientSynth.Proofs.Invocation.Addresses
import ClientSynth.Proofs.Contract.Validity
import ClientSynth.Proofs.TypeExpr.Splitting
import ClientSynth.Proofs.TypeExpr.Spacing
import ClientSynth.Proofs.Chain.FreshNames
import ClientSynth.Proofs.Cache.Clashes
