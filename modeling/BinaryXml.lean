import BinaryXml.ConfigDocument
import BinaryXml.Decoder
import BinaryXml.Encoder
import BinaryXml.Proofs.LadderRoundTrip
import BinaryXml.Proofs.EncodingRoundTrip
import BinaryXml.Proofs.RepresentationRoundTrip
import BinaryXml.Proofs.NameRoundTrip
import BinaryXml.Proofs.AlgorithmRoundTrip
import BinaryXml.Proofs.AlphabetRoundTrip
import BinaryXml.Proofs.TablesInStep
import BinaryXml.Proofs.NamesInStep
import BinaryXml.Proofs.ContentInStep
import BinaryXml.Proofs.DecoderProgress
import BinaryXml.Proofs.ItemRoundTrip
import BinaryXml.Proofs.ElementRoundTrip
import BinaryXml.Proofs.HeaderRoundTrip
import BinaryXml.Proofs.WriterEffects
import BinaryXml.Proofs.Session
import BinaryXml.Proofs.DecoderFollows
import BinaryXml.Proofs.SessionSteps
import BinaryXml.Proofs.SessionRoundTrip
import BinaryXml.Proofs.FreshItems
import BinaryXml.Proofs.WriterErrors
import BinaryXml.Proofs.ElementScopes
import BinaryXml.Proofs.EncoderCalls
import BinaryXml.Proofs.EncoderScopes
import BinaryXml.Proofs.NormalForm
import BinaryXml.Proofs.EncoderTranscript
import BinaryXml.Proofs.DocumentRoundTrip
import BinaryXml.Proofs.EncoderErrors
import BinaryXml.Proofs.CallGrammar
import BinaryXml.Proofs.CallOrder
import BinaryXml.Proofs.DecodedNesting
import BinaryXml.Proofs.ProperNames
import BinaryXml.Proofs.DecodedDocuments
import BinaryXml.Proofs.SelfDelimiting
import BinaryXml.Proofs.UnregisteredContent
import BinaryXml.Proofs.Reencoding
import BinaryXml.Proofs.CallSuccess
import BinaryXml.Proofs.EncoderSuccess
import BinaryXml.Proofs.DecodedContent
import BinaryXml.Proofs.Recoding
import BinaryXml.Proofs.TableRuns
import BinaryXml.Proofs.WrittenForms
import BinaryXml.Proofs.WrittenNames
import BinaryXml.Proofs.BuiltCodecs
import BinaryXml.Proofs.TableReservations
import BinaryXml.Proofs.ScopeStacks
import BinaryXml.Proofs.PackingWords
import BinaryXml.Proofs.AlphabetPacking
import BinaryXml.Proofs.BitGroups
import BinaryXml.Proofs.NumberSpellings
import BinaryXml.Proofs.AlgorithmOctets
import BinaryXml.Proofs.CharacterForms
import BinaryXml.Proofs.Rounding
import BinaryXml.Proofs.MidpointDistance
import BinaryXml.Proofs.ShortestDecimals
import BinaryXml.Proofs.DoubleRounding
import BinaryXml.Proofs.FloatText
import BinaryXml.Proofs.FloatRoundTrip
import BinaryXml.Proofs.WrittenOctets
import BinaryXml.Proofs.ElementMarks
import BinaryXml.Proofs.NameReferences
import BinaryXml.Proofs.DoubleTerminators
import BinaryXml.Proofs.AdmittedText
import BinaryXml.Proofs.FullTables
import BinaryXml.Proofs.Registrations
import BinaryXml.Proofs.StrictDecoding
import BinaryXml.Proofs.DecodingBounds
