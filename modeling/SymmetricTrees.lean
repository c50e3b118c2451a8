import SymmetricTrees.Session
import SymmetricTrees.Comparison
import SymmetricTrees.Proofs.LeafIndex
import SymmetricTrees.Proofs.StreamBounds
import SymmetricTrees.Proofs.BlockPositions
import SymmetricTrees.Proofs.WalkScores
import SymmetricTrees.Proofs.TreeReading
import SymmetricTrees.Proofs.WalkAgreement
import SymmetricTrees.Proofs.Packing
import SymmetricTrees.Proofs.Encoding
import SymmetricTrees.Proofs.BatchScores
import SymmetricTrees.Proofs.FirstFault
import SymmetricTrees.Proofs.EncodingLimits
import SymmetricTrees.Proofs.ModelScores
import SymmetricTrees.Proofs.HandleHistory
import SymmetricTrees.Proofs.WholeDescriptions
import SymmetricTrees.Proofs.DescriptionEdits
import SymmetricTrees.Proofs.CutStreams
import SymmetricTrees.Proofs.Violations
import SymmetricTrees.Proofs.MatrixScores
import SymmetricTrees.Proofs.SessionHistory
import SymmetricTrees.Proofs.WrittenRecords
import SymmetricTrees.Proofs.ReaderLoops
import SymmetricTrees.Proofs.JoinedStreams
import SymmetricTrees.Proofs.RewrittenStreams
import SymmetricTrees.Proofs.CanonicalPacking
import SymmetricTrees.Proofs.BlockCounts
import SymmetricTrees.Proofs.ForestGrowth
import SymmetricTrees.Proofs.LeafIndexLayouts
import SymmetricTrees.Proofs.DescribedTransform
